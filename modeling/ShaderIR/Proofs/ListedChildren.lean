import ShaderIR.Proofs.DestructionInvariants

/-! What child lists hold. Instructions and globals in lists are values that have been made and are
no constants, or were such values before they went. So no constant is ever erased as a child. -/

namespace ShaderIR

namespace Ledger

/-- A value that has been made and is no constant, or has gone. -/
structure Ordinary (L : Ledger) (v : ValueId) : Prop where
  made : v.index < L.values.size
  kind : ∀ {d}, L.values.get? v = some d → d.1 ≠ .constant

structure Listed (B : ValueId → Prop) (L : Ledger) : Prop where
  base : ∀ {v}, B v → L.Ordinary v
  instructions : ∀ {b d v}, L.values.get? b = some d → v ∈ d.2 → L.Ordinary v
  globals : ∀ {m vs v}, L.globals.get? m = some vs → v ∈ vs → L.Ordinary v

variable {B B' : ValueId → Prop} {L L' : Ledger} {v b : ValueId} {m : ModuleId}

theorem Listed.weaken (h : L.Listed B') (hB : ∀ v, B v → B' v) : L.Listed B :=
  ⟨fun hv => h.base (hB _ hv), h.instructions, h.globals⟩

theorem Listed.mono (h : L.Listed B) (ho : ∀ {v}, L.Ordinary v → L'.Ordinary v)
    (hi : ∀ {b d v}, L'.values.get? b = some d → v ∈ d.2 → L.Ordinary v)
    (hg : ∀ {m vs v}, L'.globals.get? m = some vs → v ∈ vs → L.Ordinary v) : L'.Listed B :=
  ⟨fun hv => ho (h.base hv), fun hd hv => ho (hi hd hv), fun hm hv => ho (hg hm hv)⟩

theorem Ordinary.congr (h : L.Ordinary v) (hv : L'.values = L.values) : L'.Ordinary v :=
  ⟨hv ▸ h.made, hv ▸ h.kind⟩

theorem Listed.congr (h : L.Listed B) (hv : L'.values = L.values) (hg : L'.globals = L.globals) :
    L'.Listed B :=
  h.mono (fun ho => ho.congr hv) (hv ▸ h.instructions) (hg ▸ h.globals)

theorem Listed.push (h : L.Listed B) {k : ValueKind} (hv : L'.values = L.values.push (k, []))
    (hg : L'.globals = L.globals) : L'.Listed B := by
  have hget (w : ValueId) : L'.values.get? w =
      if w = L.values.next then some (k, []) else L.values.get? w := by
    rw [hv, Arena.get?_push]
  refine h.mono (fun ho => ⟨?_, fun {d} hd => ?_⟩) (fun {b d v} hd hv => ?_) (hg ▸ h.globals)
  · rw [hv, Arena.size_push]
    exact Nat.lt_succ_of_lt ho.made
  · rw [hget, if_neg] at hd
    · exact ho.kind hd
    · rintro rfl
      exact Nat.lt_irrefl _ ho.made
  · rw [hget] at hd
    split at hd
    · obtain rfl := Option.some.inj hd
      cases hv
    · exact h.instructions hd hv

theorem Listed.erase (h : L.Listed B) (hv : L'.values = L.values.erase v)
    (hg : L'.globals = L.globals) : L'.Listed B := by
  have hget {w : ValueId} {d} (hd : L'.values.get? w = some d) : L.values.get? w = some d := by
    rw [hv, Arena.get?_erase] at hd
    split at hd
    · cases hd
    · exact hd
  refine h.mono (fun ho => ⟨?_, fun hd => ho.kind (hget hd)⟩)
    (fun hd => h.instructions (hget hd)) (hg ▸ h.globals)
  rw [hv, Arena.size_erase]
  exact ho.made

theorem Listed.modify (h : L.Listed B) {k : ValueKind × List ValueId → ValueKind × List ValueId}
    (hv : L'.values = L.values.modify b k) (hg : L'.globals = L.globals)
    (hk : ∀ d, (k d).1 = d.1 ∨ (k d).1 ≠ .constant) (hl : ∀ d, ∀ w ∈ (k d).2, w ∈ d.2 ∨ B w) :
    L'.Listed B := by
  have hget {w : ValueId} {d} (hd : L'.values.get? w = some d) : L.values.get? w = some d ∨
      ∃ d', L.values.get? w = some d' ∧ d = k d' := by
    rw [hv, Arena.get?_modify] at hd
    split at hd
    · obtain ⟨d', hd', rfl⟩ := Option.map_eq_some_iff.1 hd
      exact .inr ⟨d', hd', rfl⟩
    · exact .inl hd
  refine h.mono (fun ho => ⟨?_, fun {d} hd => ?_⟩) (fun {b d v} hd hv => ?_) (hg ▸ h.globals)
  · rw [hv, Arena.size_modify]
    exact ho.made
  · obtain hd | ⟨d', hd', rfl⟩ := hget hd
    · exact ho.kind hd
    · exact (hk d').elim (fun hk => hk ▸ ho.kind hd') id
  · obtain hd | ⟨d', hd', rfl⟩ := hget hd
    · exact h.instructions hd hv
    · exact (hl d' v hv).elim (h.instructions hd') h.base

theorem Listed.modifyGlobals (h : L.Listed B) {k : List ValueId → List ValueId}
    (hv : L'.values = L.values) (hg : L'.globals = L.globals.modify m k)
    (hl : ∀ vs, ∀ w ∈ k vs, w ∈ vs ∨ B w) : L'.Listed B := by
  refine h.mono (fun ho => ho.congr hv) (hv ▸ h.instructions) fun {m' vs v} hm hv => ?_
  rw [hg, Arena.get?_modify] at hm
  split at hm
  · obtain ⟨vs', hvs', rfl⟩ := Option.map_eq_some_iff.1 hm
    exact (hl vs' v hv).elim (h.globals hvs') h.base
  · exact h.globals hm hv

end Ledger

namespace Edit

variable {B : ValueId → Prop} {v b i g f : ValueId} {m : ModuleId} {anchor : Option ValueId}

def Listed (B : ValueId → Prop) (s : Store) : Prop := s.ledger.Listed B

theorem Fixes.listed {α : Type} {e : Edit α} (h : Fixes Store.ledger e) : Keeps (Listed B) e :=
  h.keeps fun L => L.Listed B

theorem Fixes.listed_of_body {α : Type} {e : Edit α} (h : Fixes Store.body e) :
    Keeps (Listed B) e := by
  intro s hs
  have hbody {s' : Store} (hb : s'.body = s.body) : Listed B s' := by
    refine hs.congr ?_ ?_
    · have hvalues (s : Store) : s.ledger.values = s.body.values.map Value.listing :=
        (Arena.map_map s.values Value.unattached Value.listing).symm
      rw [hvalues, hb, hvalues]
    · have hglobals (s : Store) : s.ledger.globals = s.body.modules.map Module.globals :=
        (Arena.map_map s.modules Module.unnamed Module.globals).symm
      rw [hglobals, hb, hglobals]
  exact (h.ends s).mono (fun _ _ => hbody) fun _ _ => hbody

theorem fixes_retargetOperand {n n' : NodeId} {j : Nat} :
    Fixes Store.body (retargetOperand n j n') := by
  refine .bind (.lift _) fun before => .bind fixes_modifyNode fun _ => .bind fixes_track fun _ => ?_
  refine .ite (.bind fixes_modifyMetadata fun _ => .bind (.lift _) fun after => ?_) (.pure _)
  refine .bind .get fun s => ?_
  split
  · exact fixes_modifyMetadata
  · exact fixes_modifyNode

theorem robust_listed : Robust Store.ledger (fun _ _ => False) (Listed B) where
  view h hs := by rwa [Listed, h]
  operand := fixes_retargetOperand.listed_of_body.carries
  node hs _ _ := (Fixes.listed_of_body (.bind fixes_modifyMetadata fun _ =>
    fixes_modifyNode)).carries _ hs
  drop := by
    refine Fixes.listed_of_body (.bind .get fun s => ?_)
    split
    · exact .pure _
    · exact fixes_modifyMetadata
  erase := .modify fun _ hs => hs.erase (Arena.map_erase ..) rfl

section Lists

theorem keeps_pushValue_listed {d : Value} (hd : d.payload.instructions = []) :
    Keeps (Listed B) (pushValue d) :=
  Keeps.modifyGet fun s hs => hs.push (k := d.kind)
    ((Arena.map_push ..).trans (by rw [Value.listing, hd]; rfl)) rfl

theorem keeps_modifyInstructions_listed {k : List ValueId → List ValueId}
    (hk : ∀ vs, ∀ w ∈ k vs, w ∈ vs ∨ B w) : Keeps (Listed B) (modifyInstructions b k) := by
  refine .bind (.lift _) fun _ => .bind (.lift _) fun _ => .modify fun s hs => ?_
  refine hs.modify (k := fun d => if d.1 = .block then (d.1, k d.2) else d)
    (Arena.map_modify (fun d => ?_) ..) rfl (fun d => .inl ?_) fun d w hw => ?_
  · obtain ⟨_, p, _, _, _⟩ := d
    cases p <;> rfl
  · split
    · rfl
    · rfl
  · split at hw
    · exact hk _ _ hw
    · exact .inl hw

theorem Listed.add {s : Store} {d : Value} (h : Listed B s) (hd : s.values.get? v = some d)
    (hk : d.kind ≠ .constant) : Listed (fun w => B w ∨ w = v) s := by
  refine ⟨fun {w} hw => hw.elim h.base ?_, h.instructions, h.globals⟩
  rintro rfl
  refine ⟨?_, fun {d'} hd' => ?_⟩
  · rw [Store.ledger, Arena.size_map]
    exact Arena.lt_size_of_get? hd
  · rw [Store.ledger, Arena.get?_map, hd, Option.map_some] at hd'
    obtain rfl := Option.some.inj hd'
    exact hk

theorem Keeps.listed_add {α : Type} {e : Edit α} {s : Store} {d : Value}
    (h : Keeps (Listed fun w => B w ∨ w = v) e) (hs : Listed B s) (hd : s.values.get? v = some d)
    (hk : d.kind ≠ .constant) : Ends e s (fun _ => Listed B) fun _ => Listed B :=
  (h s (hs.add hd hk)).mono (fun _ _ h => h.weaken fun _ => .inl)
    fun _ _ h => h.weaken fun _ => .inl

end Lists

section Instructions

theorem keeps_placeInstruction_listed :
    Keeps (Listed fun w => B w ∨ w = i) (placeInstruction b i anchor) := by
  refine .bind (Fixes.listed fixes_setInstructionParent) fun _ =>
    keeps_modifyInstructions_listed fun vs w hw => ?_
  exact (mem_insertBefore.1 hw).elim (fun hw => .inr (.inr hw)) .inl

theorem instructionParent_ok {s : Store} {o : Option ValueId}
    (h : Query.instructionParent i s = .ok o) :
    ∃ d, s.values.get? i = some d ∧ d.kind ≠ .constant := by
  obtain ⟨p, hp, h⟩ := Query.bind_ok.1 h
  obtain ⟨d, hd, rfl⟩ := Query.payload_ok.1 hp
  refine ⟨d, hd, fun hk => ?_⟩
  obtain ⟨_, p, _, _, _⟩ := d
  cases p <;> simp [Value.kind, Payload.kind] at hk h

theorem keeps_insertInstruction_listed : Keeps (Listed B) (insertInstruction b i anchor) := by
  refine .bind (.lift _) fun _ => fun s hs => ?_
  refine ends_bind.2 (ends_lift.2 ⟨fun o ho => ?_, fun _ _ => hs⟩)
  obtain ⟨d, hd, hk⟩ := instructionParent_ok ho
  refine Keeps.listed_add ?_ hs hd hk
  exact .guard (.raise _) (.bind keeps_placeInstruction_listed fun _ =>
    Fixes.listed fixes_registerName)

theorem keeps_removeInstruction_listed : Keeps (Listed B) (removeInstruction i) := by
  refine .bind (.lift _) fun b => ?_
  split
  · exact .bind (Fixes.listed fixes_unregisterName) fun _ =>
      .bind (keeps_modifyInstructions_listed fun _ _ hw => .inl (mem_without.1 hw).1) fun _ =>
        Fixes.listed fixes_setInstructionParent
  · exact .raise _

theorem keeps_relocateInstruction_listed :
    Keeps (Listed B) (relocateInstruction i b anchor) := by
  intro s hs
  refine ends_bind.2 (ends_lift.2 ⟨fun o ho => ?_, fun _ _ => hs⟩)
  obtain ⟨d, hd, hk⟩ := instructionParent_ok ho
  refine Keeps.listed_add ?_ hs hd hk
  split
  · exact keeps_insertInstruction_listed
  · refine .bind (.lift _) fun shared => .ite ?_ ?_
    · exact .bind (keeps_modifyInstructions_listed fun _ _ hw => .inl (mem_without.1 hw).1)
        fun _ => keeps_placeInstruction_listed
    · exact .bind keeps_removeInstruction_listed fun _ => keeps_insertInstruction_listed

end Instructions

section Globals

theorem keeps_modifyGlobals_listed {k : List ValueId → List ValueId}
    (hk : ∀ vs, ∀ w ∈ k vs, w ∈ vs ∨ B w) :
    Keeps (Listed B) (modifyModule m fun d => { d with globals := k d.globals }) := by
  refine .bind (.lift _) fun _ => .modify fun s hs => ?_
  have hglobals : (s.modules.modify m fun d => { d with globals := k d.globals }).map
      Module.globals = (s.modules.map Module.globals).modify m k :=
    Arena.map_modify (fun _ => by rfl) ..
  exact hs.modifyGlobals rfl hglobals hk

theorem globalModule_ok {s : Store} {o : Option ModuleId} (h : Query.globalModule g s = .ok o) :
    ∃ d, s.values.get? g = some d ∧ d.kind ≠ .constant := by
  obtain ⟨p, hp, h⟩ := Query.bind_ok.1 h
  obtain ⟨d, hd, rfl⟩ := Query.payload_ok.1 hp
  refine ⟨d, hd, fun hk => ?_⟩
  obtain ⟨_, p, _, _, _⟩ := d
  cases p <;> simp [Value.kind, Payload.kind] at hk h

theorem keeps_appendGlobal_listed : Keeps (Listed B) (appendGlobal m g) := by
  refine .bind (.lift _) fun _ => fun s hs => ?_
  refine ends_bind.2 (ends_lift.2 ⟨fun o ho => ?_, fun _ _ => hs⟩)
  obtain ⟨d, hd, hk⟩ := globalModule_ok ho
  refine Keeps.listed_add ?_ hs hd hk
  refine .guard (.raise _) (.bind (Fixes.listed fixes_setGlobalModule) fun _ =>
    .bind (keeps_modifyGlobals_listed (k := fun gs => gs ++ [g]) fun vs w hw => ?_) fun _ =>
      Fixes.listed fixes_registerName)
  exact (List.mem_append.1 hw).imp_right fun hw => .inr (List.mem_singleton.1 hw)

theorem keeps_removeGlobal_listed : Keeps (Listed B) (removeGlobal g) := by
  refine .bind (.lift _) fun m => ?_
  split
  · exact .bind (Fixes.listed fixes_unregisterName) fun _ =>
      .bind (keeps_modifyGlobals_listed fun _ _ hw => .inl (mem_without.1 hw).1) fun _ =>
        Fixes.listed fixes_setGlobalModule
  · exact .raise _

theorem keeps_moveGlobalTo_listed : Keeps (Listed B) (moveGlobalTo g m) :=
  .bind (.lift _) fun _ => .ite (.bind keeps_removeGlobal_listed fun _ => keeps_appendGlobal_listed)
    keeps_appendGlobal_listed

theorem keeps_createModule_listed {text : String} : Keeps (Listed B) (createModule text) := by
  refine Keeps.modifyGet fun s hs => hs.mono (·.congr rfl) hs.instructions fun {m vs v} hm hv => ?_
  have hglobals : (s.modules.push { name := text }).map Module.globals =
      (s.modules.map Module.globals).push [] := Arena.map_push ..
  rw [Store.ledger, hglobals, Arena.get?_push] at hm
  split at hm
  · obtain rfl := Option.some.inj hm
    cases hv
  · exact hs.globals hm hv

theorem keeps_eraseModule_listed : Keeps (Listed B) (modify fun s => { s with
    modules := s.modules.erase m
    scopes := s.scopes.erase (.module m) } : Edit Unit) := by
  refine .modify fun s hs => hs.mono (·.congr rfl) hs.instructions fun {m' vs v} hm hv => ?_
  have hglobals : (s.modules.erase m).map Module.globals =
      (s.modules.map Module.globals).erase m := Arena.map_erase ..
  rw [Store.ledger, hglobals, Arena.get?_erase] at hm
  split at hm
  · cases hm
  · exact hs.globals hm hv

end Globals

end Edit

end ShaderIR
