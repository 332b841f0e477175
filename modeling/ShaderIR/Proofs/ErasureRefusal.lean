import ShaderIR.Proofs.BlockErasure
import ShaderIR.Proofs.LocationSafety
import ShaderIR.Proofs.ModuleErasure

/-! What decides whether an erasure is refused. Its check sees all users of what it destroys, but
neither that a block address may stay nor that something may refer to the node of a member when its
turn comes. If nothing of this is in the way, then an erasure that is refused has changed nothing,
and one of which only its own members make use is not refused. -/

namespace ShaderIR

open Edit

namespace Store

variable {s s' p q : Store} {c f g u v : ValueId} {m m' : ModuleId} {d : Module}
variable {B I : ValueId → Prop}

theorem not_uses_of_useList (hs : s.Settled) (h : s.uses.useList v = []) (u : ValueId) :
    ¬ s.Uses u v := by
  rw [uses_iff hs, usersOf, h]
  exact List.not_mem_nil

/-- A module has been erased with its members. All other values have the slots, the names and the
places that they had, and all other modules are as they were. -/
structure ErasesModule (s s' : Store) (m : ModuleId) : Prop where
  module : s'.isModuleLive m = false
  members : ∀ v ∈ (s.layout.moduleMembers m).all, s'.isLive v = false
  values : ∀ v, v ∉ (s.layout.moduleMembers m).all → s'.values.get? v = s.values.get? v
  operands : ∀ v, v ∉ (s.layout.moduleMembers m).all → s'.uses.targets v = s.uses.targets v
  modules : ∀ m', m' ≠ m → s'.modules.get? m' = s.modules.get? m'

theorem not_mem_of_module (hp : s.layout.Placed) (hm : s.modules.get? m' = some d) (hne : m' ≠ m)
    (hv : v ∈ d.functions ++ d.globals) : v ∉ (s.layout.moduleMembers m).all := by
  rw [← layout_functions hm, ← layout_globals hm, List.mem_append] at hv
  have hscope := scope_of_module hp hv
  have hother (hv : v ∈ s.layout.children (.functions m) ∨ v ∈ s.layout.children (.globals m)) :
      False :=
    hne (Scope.module.inj (Option.some.inj (hscope.symm.trans (scope_of_module hp hv))))
  intro hmem
  obtain ⟨f, hf, hmem⟩ | hmem := Layout.mem_moduleBatches.1 (Layout.mem_moduleMembers.1 hmem)
  · obtain rfl | hfunction := scope_of_mem_functionBatches hp hmem
    · exact hother (.inl hf)
    · cases hscope.symm.trans hfunction
  · exact hother (.inr hmem)

theorem unaddressed_of_inside (hp : s.layout.Placed)
    (h : ∀ v ∈ (s.layout.moduleMembers m).all, ∀ u, s.Uses u v → u ∈ (s.layout.moduleMembers m).inside) :
    Unaddressed (· ∈ (s.layout.moduleMembers m).all) s := by
  intro c v hv hc huses
  have hnone := kind_of_isBlockAddress hc
  have hplaced {w : ValueId} {p : Place} (hw : w ∈ s.layout.children p) : s.layout.kind w ≠ none := by
    rw [kind_of_place ((hp.child w p).2 hw)]
    exact Option.some_ne_none _
  obtain hbody | hglobal := Layout.mem_moduleMembers_inside.1 (h v hv c huses)
  · obtain ⟨f, -, hbody⟩ := List.mem_flatMap.1 hbody
    obtain ⟨b, -, hi⟩ := Layout.mem_body.1 hbody
    exact hplaced hi hnone
  · exact hplaced hglobal hnone

theorem erasesModule_of_strips {total : Prop} {freed done : List ValueId} (hp : s.layout.Placed)
    (h : Erased total B (· ∈ (s.layout.moduleMembers m).all) s I freed done
      (s.layout.moduleBatches m) s p)
    (hu : Unaddressed (· ∈ (s.layout.moduleMembers m).all) s) (hq : Strips m p [] q) :
    s.ErasesModule (q.dropModule m) m := by
  have hleaves := h.phase.thins.leaves hu
  have hvalues : (q.dropModule m).values = p.values := hq.values
  have huses : (q.dropModule m).uses = p.uses := hq.uses
  have hmodules (m' : ModuleId) : (q.dropModule m).modules.get? m' =
      if m = m' then none else q.modules.get? m' := Arena.get?_erase ..
  refine ⟨?_, fun v hv => ?_, fun v hv => ?_, fun v hv => ?_, fun m' hne => ?_⟩
  · rw [isModuleLive, hmodules, if_pos rfl, Option.isSome_none]
  · have hdone := h.phase.done (v := v) (List.mem_append_right _ (Layout.mem_moduleMembers.1 hv))
    rw [isLive, hvalues, hdone.2, Option.isSome_none]
  · rw [hvalues, hleaves.values v hv]
  · rw [huses, hleaves.targets v hv]
  · rw [hmodules, if_neg hne.symm, hq.others m' hne]
    cases hm' : s.modules.get? m' with
    | some d' => exact hleaves.modules m' d' hm' fun v hv => not_mem_of_module hp hm' hne hv
    | none =>
      have hnamed := h.phase.thins.upholds.named m'
      rw [hm', Option.map_none, Option.map_eq_none_iff] at hnamed
      exact hnamed

end Store

namespace Query

open Store

variable {B : ValueId → Prop} {s : Store} {f : ValueId}

def expectErasableBlock (b : ValueId) : Query Unit := do
  expectKind b .block
  let members ← blockMembers b
  expectErasable members.all members.inside

def expectErasableFunction (f : ValueId) : Query Unit := do
  expectKind f .function
  let members ← functionMembers f
  expectErasable (f :: members.all) members.inside

def expectErasableModule (m : ModuleId) : Query Module := do
  let d ← module m
  let members ← moduleMembers m
  expectErasable members.all members.inside
  return d

theorem expectErasableFunction_ok (hs : Coherent B s) (hp : s.layout.Placed) :
    expectErasableFunction f s = .ok () ↔ s.layout.kind f = some .function ∧
      ∀ v ∈ f :: (s.layout.members f).all, s.Confines (· ∈ s.layout.body f) v := by
  simp only [expectErasableFunction, bind_ok]
  constructor
  · rintro ⟨_, hk, members, hmembers, hcheck⟩
    have hk := (expectKind_layout rfl).1 hk
    rw [functionMembers_ok hp hk] at hmembers
    cases hmembers
    exact ⟨hk, fun v hv => ((expectErasable_ok hs.settled).1 hcheck v hv).2⟩
  · rintro ⟨hk, hconf⟩
    refine ⟨(), (expectKind_layout rfl).2 hk, _, functionMembers_ok hp hk, ?_⟩
    refine (expectErasable_ok hs.settled).2 fun v hv => ⟨?_, hconf v hv⟩
    obtain ⟨k, hk⟩ := kind_of_mem_functionBatches hp hk (Layout.mem_members.1 hv)
    obtain ⟨-, d, hd, -⟩ := layout_kind.1 hk
    exact ⟨d, hd⟩

end Query

namespace Edit

open Store

variable {B : ValueId → Prop} {s : Store} {b f g : ValueId} {m : ModuleId} {d : Module}
    {total : Prop}

theorem eraseBlock_eq_expect (b : ValueId) : eraseBlock b = (do
    Query.expectErasableBlock b
    dismantleBlock b) := by
  simp only [eraseBlock_eq_dismantle, Query.expectErasableBlock, lift_bind, bind_assoc]

theorem eraseFunction_eq_expect (f : ValueId) : eraseFunction f = (do
    Query.expectErasableFunction f
    dismantleFunction f) := by
  simp only [eraseFunction_eq, Query.expectErasableFunction, lift_bind, bind_assoc]

theorem eraseModule_eq_expect (m : ModuleId) : eraseModule m = (do
    dismantleModule m (← Query.expectErasableModule m)) := by
  simp only [eraseModule_eq, Query.expectErasableModule, lift_bind, bind_assoc]
  rfl

theorem ends_eraseGlobal_foreseen (hs : Coherent B s) (hc : s.layout.Consistent total)
    (hf : Query.expectUnused g .global s = .ok () →
      ∀ n ∈ s.metadata.nodeOf[g]?, s.metadata.tracker.tracked n = []) :
    Ends (eraseGlobal g) s (fun _ _ => True)
      fun x s' => Query.expectUnused g .global s = .error x ∧ s' = s := by
  rw [eraseGlobal_eq]
  refine ends_checked fun _ hcheck => ?_
  have hf := hf hcheck
  obtain ⟨hkind, hnil⟩ := (Query.expectUnused_ok rfl).1 hcheck
  have hunused := not_uses_of_useList hs.settled hnil
  have hstart : Phase B (fun _ => True) s (fun _ => False) [] [] s := .start hs
  have hends := ends_eraseGlobal_phase hstart hc hkind trivial (fun u hu => absurd hu (hunused u))
    ⟨fun _ c hc' _ => absurd ((uses_iff hs.settled).2 hc') (hunused c), fun n hn l hl => ?_⟩
  · rw [eraseGlobal_eq, ends_bind, ends_lift_ok hcheck] at hends
    exact hends.weaken fun _ _ _ => trivial
  · rw [hf n hn] at hl
    cases hl

theorem ends_eraseBlock_foreseen (hs : Coherent B s) (hc : s.layout.Consistent total)
    (hf : Query.expectErasableBlock b s = .ok () → s.ForeseesAll [] [] [s.layout.blockBatch b]) :
    Ends (eraseBlock b) s (fun _ _ => True)
      fun x s' => Query.expectErasableBlock b s = .error x ∧ s' = s := by
  have hstart : Phase B (fun _ => True) s (fun _ => False) [] [] s := .start hs
  rw [eraseBlock_eq_expect]
  refine ends_checked fun _ herasable => ?_
  obtain ⟨_, -, members, hmembers, hcheck⟩ := by
    simpa only [Query.expectErasableBlock, Query.bind_ok] using herasable
  obtain ⟨hb, rfl⟩ := Query.blockMembers_ok.1 hmembers
  refine (ends_dismantleBlock hstart hc hb (fun _ _ => trivial) (fun _ _ => trivial)
    (fun v hv u hu => ?_) (hf herasable).1).weaken fun _ _ _ => trivial
  have hv := (List.perm_append_singleton b _).mem_iff.1 hv
  exact (((Query.expectErasable_ok hs.settled).1 hcheck v hv).2 u hu).imp_left .inr

theorem ends_eraseFunction_foreseen (hs : Coherent B s) (hc : s.layout.Consistent total)
    (hf : Query.expectErasableFunction f s = .ok () →
      s.ForeseesAll [] [] (s.layout.functionBatches f)) :
    Ends (eraseFunction f) s (fun _ s' => ∀ v ∈ f :: (s.layout.members f).all, s'.isLive v = false)
      fun x s' => Query.expectErasableFunction f s = .error x ∧ s' = s := by
  have hstart : Phase B (fun _ => True) s (fun _ => False) [] [] s := .start hs
  rw [eraseFunction_eq_expect]
  refine ends_checked fun _ hcheck => ?_
  obtain ⟨hk, hconf⟩ := (Query.expectErasableFunction_ok hs hc.placed).1 hcheck
  refine (ends_dismantleFunction hstart hc hk (fun _ _ => trivial) (fun v hv u hu =>
    (hconf v (Layout.mem_members.2 hv) u hu).imp_left .inr) (hf hcheck)).weaken ?_
  intro _ s' hs' v hv
  have hdone := hs'.phase.done (v := v) (by simpa using Layout.mem_members.1 hv)
  rw [isLive, hdone.2, Option.isSome_none]

theorem ends_eraseModule_erases (hs : Coherent B s) (hc : s.layout.Consistent total)
    (hm : s.modules.get? m = some d)
    (hinside : ∀ v ∈ (s.layout.moduleMembers m).all, ∀ u, s.Uses u v →
      u ∈ (s.layout.moduleMembers m).inside)
    (hf : s.ForeseesAll [] [] (s.layout.moduleBatches m))
    (hnamed : s.Releasable (d.named.flatMap Prod.snd)) :
    Ends (eraseModule m) s (fun _ s' => s.ErasesModule s' m) fun _ _ => False := by
  have hcheck : Query.expectErasable (s.layout.moduleMembers m).all (s.layout.moduleMembers m).inside s =
      .ok () := by
    refine (Query.expectErasable_ok hs.settled).2 fun v hv => ⟨?_, fun u hu => .inl (hinside v hv u hu)⟩
    obtain ⟨k, hk⟩ : ∃ k, s.layout.kind v = some k := by
      obtain ⟨f, hf, hv⟩ | hv := Layout.mem_moduleBatches.1 (Layout.mem_moduleMembers.1 hv)
      · exact kind_of_mem_functionBatches hc.placed (kind_of_place ((hc.placed.child f _).2 hf)) hv
      · exact ⟨_, kind_of_place ((hc.placed.child v _).2 hv)⟩
    obtain ⟨-, d, hd, -⟩ := layout_kind.1 hk
    exact ⟨d, hd⟩
  have hends : Ends (eraseModule m) s (fun _ s' => s.ErasesModule s' m) fun x _ => x.IsLeak := by
    rw [eraseModule_eq, ends_bind, ends_lift_ok (Query.module_ok.2 hm), ends_bind,
      ends_lift_ok (Query.moduleMembers_ok hc.placed hm), ends_bind, ends_lift_ok hcheck]
    refine (ends_dismantleModule (D := (· ∈ (s.layout.moduleMembers m).all)) hs hc hm (fun _ hv => hv)
      (fun v hv u hu => .inl (hinside v hv u hu)) hf hnamed).mono ?_ fun _ _ h => h
    rintro _ _ ⟨p, q, herased, hq, rfl⟩
    exact erasesModule_of_strips hc.placed herased (unaddressed_of_inside hc.placed hinside) hq
  exact (hends.and (ends_eraseModule hs.settled hc)).mono (fun _ _ h => h.1) fun _ _ h => h.2 h.1

theorem ends_eraseModule_foreseen (hs : Coherent B s) (hc : s.layout.Consistent total)
    (hf : ∀ d, Query.expectErasableModule m s = .ok d →
      s.ForeseesAll [] [] (s.layout.moduleBatches m) ∧
        ∀ d ∈ s.modules.get? m, s.Releasable (d.named.flatMap Prod.snd)) :
    Ends (eraseModule m) s (fun _ _ => True)
      fun x s' => Query.expectErasableModule m s = .error x ∧ s' = s := by
  have hends : Ends (eraseModule m) s (fun _ _ => True)
      fun x s' => Query.expectErasableModule m s = .error x ∧ s' = s ∨ x.IsLeak := by
    rw [eraseModule_eq_expect]
    refine ends_bind.2 (ends_lift.2 ⟨fun d herasable => ?_, fun _ hx => .inl ⟨hx, rfl⟩⟩)
    obtain ⟨_, hm, members, hmembers, _, hcheck, rfl⟩ := by
      simpa only [Query.expectErasableModule, Query.bind_ok, Query.pure_ok] using herasable
    have hm := Query.module_ok.1 hm
    rw [Query.moduleMembers_ok hc.placed hm] at hmembers
    cases hmembers
    obtain ⟨hf, hnamed⟩ := hf _ herasable
    exact (ends_dismantleModule (D := fun _ => True) hs hc hm (fun _ _ => trivial)
      (fun v hv => ((Query.expectErasable_ok hs.settled).1 hcheck v hv).2) hf (hnamed _ hm)).mono
        (fun _ _ _ => trivial) fun _ _ h => .inr h
  exact (hends.and (ends_eraseModule hs.settled hc)).mono (fun _ _ _ => trivial) fun _ _ h =>
    h.1.resolve_right h.2

end Edit

namespace Command

/-- Nothing is in the way of an erasure that its check does not see. No other command is an
erasure. -/
def Foreseen (s : Store) : Command → Prop
  | .eraseGlobal g => ∀ n ∈ s.metadata.nodeOf[g]?, s.metadata.tracker.tracked n = []
  | .eraseBlock b => s.ForeseesAll [] [] [s.layout.blockBatch b]
  | .eraseFunction f => s.ForeseesAll [] [] (s.layout.functionBatches f)
  | .eraseModule m => s.ForeseesAll [] [] (s.layout.moduleBatches m) ∧
      ∀ d ∈ s.modules.get? m, s.Releasable (d.named.flatMap Prod.snd)
  | _ => False

/-- What an erasure asks of the store before it changes anything. -/
def check : Command → Query Unit
  | .eraseGlobal g => Query.expectUnused g .global
  | .eraseBlock b => Query.expectErasableBlock b
  | .eraseFunction f => Query.expectErasableFunction f
  | .eraseModule m => do let _ ← Query.expectErasableModule m
  | _ => pure ()

variable {s : Store} {B : ValueId → Prop} {total : Prop}

theorem ends_run_foreseen {c : Command} (hs : Coherent B s) (hc : s.layout.Consistent total)
    (hf : c.check s = .ok () → c.Foreseen s) :
    Ends c.run s (fun _ _ => True) fun x s' => c.check s = .error x ∧ s' = s := by
  cases c with
  | eraseGlobal => exact ends_quiet (ends_eraseGlobal_foreseen hs hc hf)
  | eraseBlock => exact ends_quiet (ends_eraseBlock_foreseen hs hc hf)
  | eraseFunction =>
    exact ends_quiet ((ends_eraseFunction_foreseen hs hc hf).mono (fun _ _ _ => trivial) fun _ _ h => h)
  | eraseModule =>
    refine ends_quiet ((ends_eraseModule_foreseen hs hc fun d hd => hf ?_).mono (fun _ _ h => h) ?_)
    · simp [check, hd]
    · rintro x s' ⟨hx, rfl⟩
      exact ⟨Query.bind_error.2 (.inl hx), rfl⟩
  | _ => exact (hf rfl).elim

theorem consistent_afterAll (hash : String → UInt64) (config : Config) {cs : List Command}
    (h : unbroken { hash, config } cs = true) :
    (afterAll { hash, config } cs).layout.Consistent False :=
  (afterAll_withTeardown config.verifyScopeTeardown h (Store.settled_empty hash config)
    (consistent_empty hash config)).2.1

/-- Commands of which none has stopped while it erased a container, then an erasure. If nothing is
in its way that its check does not see, as long as the check finds nothing, then what is refused is
refused by the check and leaves the store as it was. -/
theorem refused_afterAll (hash : String → UInt64) (config : Config) {cs : List Command}
    (h : unbroken { hash, config } cs = true) {c : Command}
    (hf : c.check (afterAll { hash, config } cs) = .ok () → c.Foreseen (afterAll { hash, config } cs))
    {x : Fault} {s' : Store} (hrun : c.run (afterAll { hash, config } cs) = .error x s') :
    c.check (afterAll { hash, config } cs) = .error x ∧ s' = afterAll { hash, config } cs :=
  (ends_run_foreseen (coherent_afterAll hash config cs) (consistent_afterAll hash config h)
    hf).of_error hrun

/-- A function with a block that has an address, and another function that calls the first. -/
def calledFunction : List Command :=
  [.internType .void, .internType (.function ⟨0⟩ []), .createModule "m",
    .createFunction ⟨0⟩ "f" ⟨1⟩, .createFunction ⟨0⟩ "g" ⟨1⟩, .createBlock ⟨0⟩ "a",
    .createBlock ⟨1⟩ "b", .blockAddress ⟨0⟩ ⟨2⟩,
    .buildInstruction "call" ⟨0⟩ [some ⟨0⟩] none (.append ⟨3⟩)]

theorem refused_calledFunction : unbroken {} calledFunction = true ∧
    (eraseFunction ⟨0⟩).Foreseen (afterAll {} calledFunction) ∧
    ∃ x, (eraseFunction ⟨0⟩).run (afterAll {} calledFunction) =
      .error x (afterAll {} calledFunction) := by
  have hunbroken : unbroken {} calledFunction = true := by decide +kernel
  have hforeseen : (eraseFunction ⟨0⟩).Foreseen (afterAll {} calledFunction) := by
    change (afterAll {} calledFunction).ForeseesAll [] []
      ((afterAll {} calledFunction).layout.functionBatches ⟨0⟩)
    decide +kernel
  have hrefused : (outcome (afterAll {} calledFunction) (.eraseFunction ⟨0⟩)).isOk = false := by
    decide +kernel
  unfold outcome at hrefused
  cases hrun : (eraseFunction ⟨0⟩).run (afterAll {} calledFunction) with
  | ok r s' =>
    rw [hrun] at hrefused
    cases hrefused
  | error x s' =>
    obtain ⟨-, rfl⟩ := refused_afterAll nameHash {} hunbroken (fun _ => hforeseen) hrun
    exact ⟨hunbroken, hforeseen, x, rfl⟩

/-- An address that pairs a function with a block of another. -/
def crossedAddress : List Command :=
  [.internType .void, .internType (.function ⟨0⟩ []), .createModule "m",
    .createFunction ⟨0⟩ "f" ⟨1⟩, .createFunction ⟨0⟩ "g" ⟨1⟩, .createBlock ⟨0⟩ "a",
    .createBlock ⟨1⟩ "b", .blockAddress ⟨0⟩ ⟨3⟩]

/-- The function has left its module and has lost its block when it turns out to be used. -/
theorem refused_crossedAddress : allAnswer {} crossedAddress = true ∧
    (outcome (afterAll {} crossedAddress) (.eraseFunction ⟨0⟩)).isOk = false ∧
    Query.functionModule ⟨0⟩ (afterAll {} crossedAddress) = .ok (some ⟨0⟩) ∧
    Query.functionModule ⟨0⟩ (after (afterAll {} crossedAddress) (.eraseFunction ⟨0⟩)) = .ok none ∧
    (afterAll {} crossedAddress).isLive ⟨2⟩ = true ∧
    (after (afterAll {} crossedAddress) (.eraseFunction ⟨0⟩)).isLive ⟨2⟩ = false := by
  decide +kernel

/-- Commands of which none has stopped while it erased a container, where block addresses are
nullified, then the erasure of a function. If only its body and block addresses use it and what it
consists of, each of these addresses has gone when its turn comes, and so has all that refers to the
node of a member, then all of it goes. -/
theorem eraseFunction_afterAll (hash : String → UInt64) (config : Config) {cs : List Command}
    (h : unbroken { hash, config } cs = true) {f : ValueId}
    (hs : s = afterAll { hash, config } cs)
    (hpolicy : s.config.blockAddressPolicy = .nullifyUsers) (hf : Query.kind f s = .ok .function)
    (hinside : ∀ v ∈ f :: (s.layout.members f).all, ∀ u ∈ s.usersOf v,
      u ∈ s.layout.body f ∨ s.isBlockAddress u = true)
    (hforeseen : s.ForeseesAll [] [] (s.layout.functionBatches f)) :
    ∃ s', Edit.eraseFunction f s = .ok () s' ∧
      ∀ v ∈ f :: (s.layout.members f).all, s'.isLive v = false := by
  subst hs
  obtain ⟨d, hd, hkind⟩ := Query.kind_ok.1 hf
  have hs := coherent_afterAll hash config cs
  have hconf : ∀ v ∈ f :: ((afterAll { hash, config } cs).layout.members f).all,
      (afterAll { hash, config } cs).Confines
        (· ∈ (afterAll { hash, config } cs).layout.body f) v := fun v hv u hu => by
    refine (hinside v hv u ((Store.uses_iff hs.settled).1 hu)).imp_right fun ha => ⟨?_, ha⟩
    rw [hpolicy]
    decide
  have hc := consistent_afterAll hash config h
  have hcheck := (Query.expectErasableFunction_ok hs hc.placed).2
    ⟨Store.layout_kind.2 ⟨rfl, d, hd, hkind⟩, hconf⟩
  obtain ⟨_, s', hrun, hdead⟩ := ((ends_eraseFunction_foreseen hs hc fun _ => hforeseen).mono
    (fun _ _ h => h) fun _ _ hx => by cases hcheck.symm.trans hx.1).exists_ok
  exact ⟨s', hrun, hdead⟩

/-- A function whose block has an address, which a caller uses; a node that wraps its argument is
attached to an instruction. -/
def addressedFunction : List Command :=
  [.internType (.int 32), .internType (.function ⟨0⟩ [⟨0⟩]), .createModule "m",
    .createFunction ⟨0⟩ "f" ⟨1⟩, .createFunction ⟨0⟩ "g" ⟨1⟩, .createBlock ⟨0⟩ "a",
    .createBlock ⟨2⟩ "b", .blockAddress ⟨0⟩ ⟨4⟩,
    .buildInstruction "use" ⟨0⟩ [some ⟨6⟩] none (.append ⟨5⟩),
    .buildInstruction "call" ⟨0⟩ [some ⟨0⟩, some ⟨1⟩] none (.append ⟨4⟩), .valueNode ⟨1⟩,
    .internTag "note", .setMetadata ⟨8⟩ ⟨0⟩ (some ⟨0⟩)]

theorem eraseFunction_addressedFunction : unbroken {} addressedFunction = true ∧
    ∃ s', Edit.eraseFunction ⟨0⟩ (afterAll {} addressedFunction) = .ok () s' ∧
      ∀ v ∈ [⟨0⟩, ⟨1⟩, ⟨4⟩, ⟨8⟩], s'.isLive v = false := by
  have hunbroken : unbroken {} addressedFunction = true := by decide +kernel
  obtain ⟨s', hrun, hdead⟩ :=
    eraseFunction_afterAll nameHash {} hunbroken (f := ⟨0⟩) rfl (by decide +kernel)
    (by decide +kernel) (by decide +kernel) (by decide +kernel)
  have hmembers : ⟨0⟩ :: ((afterAll {} addressedFunction).layout.members ⟨0⟩).all =
      [⟨0⟩, ⟨1⟩, ⟨4⟩, ⟨8⟩] := by decide +kernel
  exact ⟨hunbroken, s', hrun, hmembers ▸ hdead⟩

/-- The address of the other block stays when the blocks of the function go, so the function
does. -/
theorem eraseFunction_crossedAddress : allAnswer {} crossedAddress = true ∧
    (∀ v ∈ ⟨0⟩ :: ((afterAll {} crossedAddress).layout.members ⟨0⟩).all,
      (∀ u ∈ (afterAll {} crossedAddress).usersOf v,
        u ∈ (afterAll {} crossedAddress).layout.body ⟨0⟩ ∨
          (afterAll {} crossedAddress).isBlockAddress u = true) ∧
      (afterAll {} crossedAddress).metadata.nodeOf[v]? = none) ∧
    (outcome (afterAll {} crossedAddress) (.eraseFunction ⟨0⟩)).isOk = false ∧
    (after (afterAll {} crossedAddress) (.eraseFunction ⟨0⟩)).isLive ⟨0⟩ = true := by
  decide +kernel

/-- Commands of which none has stopped while it erased a container, then the erasure of a module. If
only its globals and bodies use its members, all that refers to the node of a member has gone when
its turn comes, and the handles that it names can be released, then it goes with its members, and
nothing else has changed. -/
theorem eraseModule_afterAll (hash : String → UInt64) (config : Config) {cs : List Command}
    (h : unbroken { hash, config } cs = true) {m : ModuleId} {d : Module}
    (hs : s = afterAll { hash, config } cs) (hm : Query.module m s = .ok d)
    (hinside : ∀ v ∈ (s.layout.moduleMembers m).all, ∀ u ∈ s.usersOf v,
      u ∈ (s.layout.moduleMembers m).inside)
    (hforeseen : s.ForeseesAll [] [] (s.layout.moduleBatches m))
    (hnamed : s.Releasable (d.named.flatMap Prod.snd)) :
    ∃ s', Edit.eraseModule m s = .ok () s' ∧ s.ErasesModule s' m := by
  subst hs
  have hs := coherent_afterAll hash config cs
  obtain ⟨_, s', hrun, herases⟩ := (ends_eraseModule_erases hs (consistent_afterAll hash config h)
    (Query.module_ok.1 hm) (fun v hv u hu => hinside v hv u ((Store.uses_iff hs.settled).1 hu)) hforeseen
    hnamed).exists_ok
  exact ⟨s', hrun, herases⟩

/-- Functions and a global of a module that use each other, a node that wraps one of the functions
and is attached to its call, a name of the module, and another module. -/
def crossCalls : List Command :=
  [.internType (.int 32), .internType .ptr, .internType (.function ⟨0⟩ []), .createModule "m",
    .createFunction ⟨0⟩ "f" ⟨2⟩, .createFunction ⟨0⟩ "g" ⟨2⟩, .createGlobal ⟨0⟩ "x" ⟨1⟩ (some ⟨0⟩),
    .createBlock ⟨0⟩ "a", .createBlock ⟨1⟩ "b",
    .buildInstruction "call" ⟨0⟩ [some ⟨1⟩, some ⟨2⟩] none (.append ⟨3⟩),
    .buildInstruction "call" ⟨0⟩ [some ⟨0⟩] none (.append ⟨4⟩), .valueNode ⟨0⟩, .internTag "note",
    .setMetadata ⟨5⟩ ⟨0⟩ (some ⟨0⟩), .stringNode "text", .addNamedMetadata ⟨0⟩ "entry" ⟨1⟩,
    .createModule "n", .createFunction ⟨1⟩ "h" ⟨2⟩]

theorem eraseModule_crossCalls : unbroken {} crossCalls = true ∧
    ∃ s', Edit.eraseModule ⟨0⟩ (afterAll {} crossCalls) = .ok () s' ∧
      (afterAll {} crossCalls).ErasesModule s' ⟨0⟩ := by
  have hunbroken : unbroken {} crossCalls = true := by decide +kernel
  have hm : Query.module ⟨0⟩ (afterAll {} crossCalls) =
      .ok ⟨"m", [⟨0⟩, ⟨1⟩], [⟨2⟩], [("entry", [⟨0⟩])]⟩ := by decide +kernel
  exact ⟨hunbroken, eraseModule_afterAll nameHash {} hunbroken rfl hm (by decide +kernel)
    (by decide +kernel)
    (by decide +kernel)⟩

/-- A function whose node a module names. -/
def namedFunction : List Command :=
  [.internType .void, .internType (.function ⟨0⟩ []), .createModule "m",
    .createFunction ⟨0⟩ "f" ⟨1⟩, .valueNode ⟨0⟩, .addNamedMetadata ⟨0⟩ "entry" ⟨0⟩]

/-- The name refers to the node of the function until all members have gone, so the function
stays. -/
theorem eraseModule_namedFunction : allAnswer {} namedFunction = true ∧
    (∀ v ∈ ((afterAll {} namedFunction).layout.moduleMembers ⟨0⟩).all,
      (∀ u ∈ (afterAll {} namedFunction).usersOf v,
        u ∈ ((afterAll {} namedFunction).layout.moduleMembers ⟨0⟩).inside) ∧
      ∀ n ∈ (afterAll {} namedFunction).metadata.nodeOf[v]?,
        ∀ l ∈ (afterAll {} namedFunction).metadata.tracker.tracked n,
          ∃ d ∈ (afterAll {} namedFunction).modules.get? ⟨0⟩,
            l ∈ (d.named.flatMap Prod.snd).map Location.handle) ∧
    (outcome (afterAll {} namedFunction) (.eraseModule ⟨0⟩)).isOk = false ∧
    (after (afterAll {} namedFunction) (.eraseModule ⟨0⟩)).isModuleLive ⟨0⟩ = true ∧
    (after (afterAll {} namedFunction) (.eraseModule ⟨0⟩)).isLive ⟨0⟩ = true := by
  decide +kernel

end Command

end ShaderIR
