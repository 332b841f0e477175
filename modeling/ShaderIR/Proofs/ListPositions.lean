import ShaderIR.Proofs.NamePreservation
import ShaderIR.Proofs.ScopeTeardown

/-! Where a value is put. Appending, inserting and moving leave the value in one list, at the end or
right before its anchor, and take it out of the list where it was; whether it was attached or not,
and whether or not the two lists are one, every other list and parent stays as it was. -/

namespace ShaderIR

namespace Query

def children : Place → Query (List ValueId)
  | .functions m => do return (← module m).functions
  | .globals m => do return (← module m).globals
  | .blocks f => functionBlocks f
  | .instructions b => blockInstructions b

def place (v : ValueId) : Query (Option Place) := do return (← payload v).place

section Anchors

variable {s : Store} {v a b f : ValueId}

theorem expectDistinct_ok : expectDistinct v a s = .ok () ↔ v ≠ a := by
  refine ⟨fun h hva => ?_, expectDistinct_of_ne⟩
  rw [expectDistinct, if_pos hva] at h
  cases h

theorem anchorBlock_ok : anchorBlock a s = .ok b ↔ s.layout.place a = some (.instructions b) := by
  refine ⟨fun h => ?_, anchorBlock_of_place⟩
  obtain ⟨o, ho, hb⟩ := bind_ok.1 h
  obtain ⟨-, hplace⟩ := instructionParent_ok.1 ho
  cases o with
  | none => exact absurd hb nofun
  | some c =>
    obtain rfl := pure_ok.1 hb
    exact hplace

theorem anchorFunction_ok : anchorFunction a s = .ok f ↔ s.layout.place a = some (.blocks f) := by
  refine ⟨fun h => ?_, anchorFunction_of_place⟩
  obtain ⟨o, ho, hf⟩ := bind_ok.1 h
  obtain ⟨-, hplace⟩ := blockParent_ok.1 ho
  cases o with
  | none => exact absurd hf nofun
  | some g =>
    obtain rfl := pure_ok.1 hf
    exact hplace

end Anchors

end Query

namespace Layout

variable {L : Layout} {v w : ValueId} {q r : Place} {anchor : Option ValueId}

def vacate (L : Layout) (v : ValueId) : Layout := (L.place v).elim L (L.detach v)

def put (L : Layout) (v : ValueId) (q : Place) (anchor : Option ValueId) : Layout :=
  (L.vacate v).attach v q anchor

theorem vacate_of_none (h : L.place v = none) : L.vacate v = L := by
  rw [vacate, h, Option.elim_none]

theorem vacate_of_some (h : L.place v = some q) : L.vacate v = L.detach v q := by
  rw [vacate, h, Option.elim_some]

theorem Placed.vacate (h : L.Placed) : (L.vacate v).Placed ∧ (L.vacate v).place v = none := by
  cases hv : L.place v with
  | none =>
    rw [vacate_of_none hv]
    exact ⟨h, hv⟩
  | some p =>
    rw [vacate_of_some hv]
    exact ⟨h.detach hv, place_detach_self⟩

theorem Placed.put (h : L.Placed) : (L.put v q anchor).Placed := h.vacate.1.attach h.vacate.2

theorem kind_put : (L.put v q anchor).kind = L.kind := by
  rw [put, vacate]
  cases L.place v <;> rfl

theorem position_put : (L.put v q anchor).position = L.position := by
  rw [put, vacate]
  cases L.place v <;> rfl

theorem arguments_put : (L.put v q anchor).arguments = L.arguments := by
  rw [put, vacate]
  cases L.place v <;> rfl

theorem place_put_self : (L.put v q anchor).place v = some q := place_attach_self

theorem place_put (hw : w ≠ v) : (L.put v q anchor).place w = L.place w := by
  rw [put, place_attach hw]
  cases hv : L.place v with
  | none => rw [vacate_of_none hv]
  | some p => rw [vacate_of_some hv, place_detach hw]

theorem children_vacate (h : L.Placed) : (L.vacate v).children q = without v (L.children q) := by
  -- A list that does not hold the value is the same without it.
  have hnot (hv : L.place v ≠ some q) : L.children q = without v (L.children q) := by
    refine (List.filter_eq_self.2 fun w hw => decide_eq_true ?_).symm
    rintro rfl
    exact hv ((h.child w q).2 hw)
  cases hv : L.place v with
  | none =>
    rw [vacate_of_none hv]
    exact hnot (by rw [hv]; exact nofun)
  | some p =>
    rw [vacate_of_some hv]
    by_cases hpq : q = p
    · rw [hpq, children_detach_self]
    · rw [children_detach hpq]
      exact hnot (by rw [hv]; exact fun heq => hpq (Option.some.inj heq).symm)

theorem children_put_self (h : L.Placed) :
    (L.put v q anchor).children q = insertBefore v anchor (without v (L.children q)) := by
  rw [put, children_attach_self, children_vacate h]

theorem children_put_source (h : L.Placed) (hr : r ≠ q) :
    (L.put v q anchor).children r = without v (L.children r) := by
  rw [put, children_attach hr, children_vacate h]

theorem children_put (hr : r ≠ q) (hv : L.place v ≠ some r) :
    (L.put v q anchor).children r = L.children r := by
  rw [put, children_attach hr]
  cases hplace : L.place v with
  | none => rw [vacate_of_none hplace]
  | some p =>
    rw [hplace, Ne, Option.some.injEq] at hv
    rw [vacate_of_some hplace, children_detach (Ne.symm hv)]

theorem exists_children_put (h : L.Placed)
    (hanchor : ∀ a, anchor = some a → a ≠ v ∧ L.place a = some q) :
    ∃ before after, without v (L.children q) = before ++ after ∧ after.head? = anchor ∧
      (L.put v q anchor).children q = before ++ v :: after := by
  rw [children_put_self h]
  cases anchor with
  | none =>
    exact ⟨without v (L.children q), [], (List.append_nil _).symm, rfl, insertBefore_none ..⟩
  | some a =>
    obtain ⟨hne, ha⟩ := hanchor a rfl
    have hmem : a ∈ without v (L.children q) := mem_without.2 ⟨(h.child a q).1 ha, hne⟩
    obtain ⟨before, after, hsplit⟩ := List.append_of_mem hmem
    have hnodup : (before ++ a :: after).Nodup := hsplit ▸ nodup_without (h.nodup q)
    -- Only the first occurrence of an anchor counts, and there is just one.
    have hfirst : a ∉ before := fun hb =>
      (List.nodup_append.1 hnodup).2.2 a hb a (List.mem_cons_self ..) rfl
    refine ⟨before, a :: after, hsplit, rfl, ?_⟩
    rw [hsplit, insertBefore_append v a before after hfirst]

end Layout

namespace Store

variable {s s' : Store} {v w b f : ValueId} {p q r : Place} {anchor : Option ValueId}
variable {vs : List ValueId}

/-- What putting a value in a list leaves. In the list it comes right before the anchor, or last
where there is none. -/
structure Puts (s : Store) (v : ValueId) (q : Place) (anchor : Option ValueId) (s' : Store) :
    Prop where
  parent : Query.place v s' = .ok (some q)
  target : ∃ vs before after, Query.children q s = .ok vs ∧
    ShaderIR.without v vs = before ++ after ∧ after.head? = anchor ∧
    Query.children q s' = .ok (before ++ v :: after)
  source : ∀ p, Query.place v s = .ok (some p) → p ≠ q → ∃ before after,
    Query.children p s = .ok (before ++ v :: after) ∧ Query.children p s' = .ok (before ++ after)
  lists : ∀ r vs, r ≠ q → Query.place v s ≠ .ok (some r) →
    (Query.children r s' = .ok vs ↔ Query.children r s = .ok vs)
  arguments : ∀ f vs, Query.functionArguments f s' = .ok vs ↔ Query.functionArguments f s = .ok vs
  parents : ∀ w o, w ≠ v → (Query.place w s' = .ok o ↔ Query.place w s = .ok o)
  positions : ∀ w x, Query.argumentParent w s' = .ok x ↔ Query.argumentParent w s = .ok x

def Offers (s : Store) : Place → Prop
  | .functions m | .globals m => ∃ dm, s.modules.get? m = some dm
  | .blocks f => s.layout.kind f = some .function
  | .instructions b => s.layout.kind b = some .block

theorem children_ok : Query.children p s = .ok vs ↔ s.Offers p ∧ s.layout.children p = vs := by
  cases p with
  | functions m =>
    rw [Query.children, Query.bind_ok]
    constructor
    · rintro ⟨dm, hm, hvs⟩
      rw [Query.module_ok] at hm
      rw [Query.pure_ok] at hvs
      exact ⟨⟨dm, hm⟩, (layout_functions hm).trans hvs⟩
    · rintro ⟨⟨dm, hm⟩, hvs⟩
      exact ⟨dm, Query.module_ok.2 hm, Query.pure_ok.2 ((layout_functions hm).symm.trans hvs)⟩
  | globals m =>
    rw [Query.children, Query.bind_ok]
    constructor
    · rintro ⟨dm, hm, hvs⟩
      rw [Query.module_ok] at hm
      rw [Query.pure_ok] at hvs
      exact ⟨⟨dm, hm⟩, (layout_globals hm).trans hvs⟩
    · rintro ⟨⟨dm, hm⟩, hvs⟩
      exact ⟨dm, Query.module_ok.2 hm, Query.pure_ok.2 ((layout_globals hm).symm.trans hvs)⟩
  | blocks f => exact Query.functionBlocks_ok
  | instructions b => exact Query.blockInstructions_ok

theorem place_ok {o : Option Place} :
    Query.place v s = .ok o ↔ (∃ d, s.values.get? v = some d) ∧ s.layout.place v = o := by
  simp only [Query.place, Query.bind_ok, Query.payload_ok, Query.pure_ok]
  constructor
  · rintro ⟨_, ⟨d, hd, rfl⟩, ho⟩
    exact ⟨⟨d, hd⟩, (layout_place hd).trans ho⟩
  · rintro ⟨⟨d, hd⟩, ho⟩
    exact ⟨_, ⟨d, hd, rfl⟩, (layout_place hd).symm.trans ho⟩

theorem place_ok_of_layout (h : s.layout.place v = some p) : Query.place v s = .ok (some p) := by
  obtain ⟨d, hd, -⟩ := get?_of_place h
  exact place_ok.2 ⟨⟨d, hd⟩, h⟩

theorem argumentParent_ok {x : ValueId × Nat} :
    Query.argumentParent v s = .ok x ↔ s.layout.position v = some x := by
  simp only [Query.argumentParent, Query.bind_ok, Query.payload_ok]
  constructor
  · rintro ⟨_, ⟨d, hd, rfl⟩, hx⟩
    rw [layout_position hd]
    obtain ⟨_, p, _, _, _⟩ := d
    cases p <;> simp_all [Payload.position]
  · intro hx
    obtain ⟨d, hd, hp⟩ := get?_of_position hx
    exact ⟨_, ⟨d, hd, rfl⟩, by rw [hp, Query.pure_ok]⟩

theorem offers_of_mem (h : v ∈ s.layout.children p) : s.Offers p := by
  cases p with
  | functions m => exact module_of_mem (.inl h)
  | globals m => exact module_of_mem (.inr h)
  | blocks f => exact kind_of_mem_blocks h
  | instructions b => exact kind_of_mem_instructions h

theorem offers_congr (hk : s'.layout.kind = s.layout.kind) (hm : s'.modules = s.modules) :
    s'.Offers p ↔ s.Offers p := by
  cases p <;> simp only [Offers, hk, hm]

theorem isLive_of_unhoused (h : s'.unhoused = s.unhoused) (w : ValueId) :
    (∃ d, s'.values.get? w = some d) ↔ ∃ d, s.values.get? w = some d := by
  have hmap (s : Store) : (∃ d, s.values.get? w = some d) ↔
      ((s.values.map Value.unhoused).get? w).isSome := by
    rw [Arena.get?_map, Option.isSome_map, Option.isSome_iff_exists]
  have hvalues : s'.values.map Value.unhoused = s.values.map Value.unhoused :=
    congrArg Store.values h
  rw [hmap, hmap, hvalues]

theorem puts_of_renamed (hp : s.layout.Placed)
    (hanchor : ∀ a, anchor = some a → a ≠ v ∧ s.layout.place a = some q)
    (hr : (s.layout.put v q anchor).Renamed s'.layout) (hu : s'.unhoused = s.unhoused) :
    s.Puts v q anchor s' := by
  have hkind : s'.layout.kind = s.layout.kind := hr.kind.trans Layout.kind_put
  have hmodules : s'.unhoused.modules = s.unhoused.modules := congrArg Store.modules hu
  have hoffers {p : Place} : s'.Offers p ↔ s.Offers p := offers_congr hkind hmodules
  have hplace : s'.layout.place v = some q := by rw [hr.place, Layout.place_put_self]
  have hq : s'.Offers q := offers_of_mem (((hr.placed hp.put).child v q).1 hplace)
  refine ⟨place_ok_of_layout hplace, ?_, fun p hv hne => ?_, fun r vs hne hv => ?_, fun f vs => ?_,
    fun w o hw => ?_, fun w x => ?_⟩
  · obtain ⟨before, after, hold, hhead, hnew⟩ := Layout.exists_children_put hp hanchor
    exact ⟨_, before, after, children_ok.2 ⟨hoffers.1 hq, rfl⟩, hold, hhead,
      children_ok.2 ⟨hq, hr.children ▸ hnew⟩⟩
  · have hmem := (hp.child v p).1 (place_ok.1 hv).2
    obtain ⟨before, after, hsplit⟩ := List.append_of_mem hmem
    have hnodup : (before ++ v :: after).Nodup := hsplit ▸ hp.nodup p
    have hp' := offers_of_mem hmem
    refine ⟨before, after, children_ok.2 ⟨hp', hsplit⟩, children_ok.2 ⟨hoffers.2 hp', ?_⟩⟩
    rw [hr.children, Layout.children_put_source hp hne, hsplit, without_append_cons hnodup]
  · have hstands : s.layout.place v ≠ some r := fun h => hv (place_ok_of_layout h)
    rw [children_ok, children_ok, hoffers, hr.children, Layout.children_put hne hstands]
  · rw [Query.functionArguments_ok, Query.functionArguments_ok, hkind, hr.arguments,
      Layout.arguments_put]
  · rw [place_ok, place_ok, isLive_of_unhoused hu, hr.place, Layout.place_put hw]
  · rw [argumentParent_ok, argumentParent_ok, hr.position, Layout.position_put]

end Store

namespace Edit

open Store Layout

variable {s : Store} {v i b c f a : ValueId} {anchor : Option ValueId} {q : Place} {total : Prop}
variable {e : Edit Unit}

section Unhoused

theorem unhoused_placeInstruction : Fixes Store.unhoused (placeInstruction b i anchor) :=
  .bind unhoused_setInstructionParent fun _ => unhoused_modifyInstructions

theorem unhoused_relocateInstruction : Fixes Store.unhoused (relocateInstruction i b anchor) := by
  refine .bind (.lift _) fun current => ?_
  split
  · exact unhoused_insertInstruction
  · refine .bind (.lift _) fun shared => .ite ?_ ?_
    · exact .bind unhoused_modifyInstructions fun _ => unhoused_placeInstruction
    · exact .bind unhoused_removeInstruction fun _ => unhoused_insertInstruction

theorem unhoused_relocateBlock : Fixes Store.unhoused (relocateBlock b f anchor) := by
  refine .bind (.lift _) fun current => ?_
  split
  · exact unhoused_insertBlock
  · exact .ite unhoused_modifyBlocks (.bind unhoused_removeBlock fun _ => unhoused_insertBlock)

end Unhoused

/-- An edit that puts a value in a list if it answers. Names may change. -/
def Places (s : Store) (v : ValueId) (q : Place) (anchor : Option ValueId) (e : Edit Unit) : Prop :=
  Ends e s (fun _ s' => (s.layout.put v q anchor).Renamed s'.layout) fun _ _ => True

theorem Places.of_detached {s₁ : Store} {p : Place} (hv : s.layout.place v = some p)
    (hr : (s.layout.detach v p).Renamed s₁.layout) (h : Places s₁ v q anchor e) :
    Ends e s₁ (fun _ s' => (s.layout.put v q anchor).Renamed s'.layout) fun _ _ => True := by
  have hnone : s₁.layout.place v = none := by rw [hr.place, place_detach_self]
  refine h.mono (fun _ s' h' => ?_) fun _ _ h => h
  rw [put, vacate_of_none hnone] at h'
  rw [put, vacate_of_some hv]
  exact hr.attach.trans h'

theorem places_insertInstruction (hp : s.layout.Placed) :
    Places s i (.instructions b) anchor (insertInstruction b i anchor) := by
  refine ends_bind.2 (ends_lift.2 ⟨fun _ hb => ?_, fun _ _ => trivial⟩)
  refine ends_bind.2 (ends_lift.2 ⟨fun o ho => ?_, fun _ _ => trivial⟩)
  obtain ⟨hi, hplace⟩ := Query.instructionParent_ok.1 ho
  cases o with
  | some c => trivial
  | none =>
    refine Ends.bind (Ends.weaken (ends_placeInstruction ((Query.expectKind_layout rfl).1 hb) hi)
      fun _ _ h => h) ?_
    intro _ s₁ hs₁
    have hp₁ : s₁.layout.Placed := hs₁ ▸ hp.attach hplace
    have hi₁ : s₁.layout.kind i = some .instruction := by rw [hs₁]; exact hi
    refine (ends_registerName_enters hp₁ hi₁).mono (fun _ s' henters => ?_) fun _ _ _ => trivial
    rw [put, vacate_of_none hplace, ← hs₁]
    exact henters.renamed

theorem places_relocateInstruction (hs : s.layout.Consistent total) :
    Places s i (.instructions b) anchor (relocateInstruction i b anchor) := by
  refine ends_bind.2 (ends_lift.2 ⟨fun o ho => ?_, fun _ _ => trivial⟩)
  obtain ⟨hi, hplace⟩ := Query.instructionParent_ok.1 ho
  cases o with
  | none => exact places_insertInstruction hs.placed
  | some c =>
    refine ends_bind.2 (ends_lift.2 ⟨fun x hx => ?_, fun _ _ => trivial⟩)
    split
    next hshare =>
      -- Within a function the names stay, so the instruction only goes from list to list.
      obtain ⟨f, -, -, hkb⟩ := shareFunction_ok hx hshare
      have hkc := kind_of_mem_instructions ((hs.placed.child i _).1 hplace)
      refine Ends.weaken (ends_shiftInstruction hi hkc hkb) fun _ s' hs' => ?_
      rw [hs', put, vacate_of_some hplace]
      exact .refl _
    next =>
      refine Ends.bind ((ends_removeInstruction hs).mono (fun _ _ h => h) fun _ _ _ => trivial) ?_
      rintro _ s₁ ⟨hs₁, q, hq, hr⟩
      obtain rfl := Option.some.inj (hq.symm.trans hplace)
      exact (places_insertInstruction hs₁.placed).of_detached hplace hr

theorem places_insertBlock (hp : s.layout.Placed) :
    Places s b (.blocks f) anchor (insertBlock f b anchor) := by
  by_cases hfree : s.layout.kind f = some .function ∧ s.layout.kind b = some .block ∧
      s.layout.place b = none
  · obtain ⟨hf, hb, hplace⟩ := hfree
    refine (ends_insertBlock_registers anchor hp hb hplace hf).mono (fun _ s' hregisters => ?_)
      fun _ _ _ => trivial
    rw [put, vacate_of_none hplace]
    exact hregisters.renamed
  · refine ends_bind.2 (ends_lift.2 ⟨fun _ hf => ?_, fun _ _ => trivial⟩)
    refine ends_bind.2 (ends_lift.2 ⟨fun o ho => ?_, fun _ _ => trivial⟩)
    obtain ⟨hb, hplace⟩ := Query.blockParent_ok.1 ho
    cases o with
    | some g => trivial
    | none => exact absurd ⟨(Query.expectKind_layout rfl).1 hf, hb, hplace⟩ hfree

theorem places_relocateBlock (hs : s.layout.Consistent total) :
    Places s b (.blocks f) anchor (relocateBlock b f anchor) := by
  refine ends_bind.2 (ends_lift.2 ⟨fun o ho => ?_, fun _ _ => trivial⟩)
  obtain ⟨hb, hplace⟩ := Query.blockParent_ok.1 ho
  cases o with
  | none => exact places_insertBlock hs.placed
  | some g =>
    dsimp only
    split
    next hg =>
      -- The block stays in its function, and only the list is put in order.
      subst hg
      have hkind := kind_of_mem_blocks ((hs.placed.child b _).1 hplace)
      refine Ends.weaken (ends_modifyBlocks hkind) fun _ s' hs' => ?_
      rw [hs', put, vacate_of_some hplace, detach_attach_self hplace]
      exact .refl _
    next =>
      refine Ends.bind ((ends_removeBlock hs).mono (fun _ _ h => h) fun _ _ _ => trivial) ?_
      rintro _ s₁ ⟨hs₁, -, q, hq, hr⟩
      obtain rfl := Option.some.inj (hq.symm.trans hplace)
      exact (places_insertBlock hs₁.placed).of_detached hplace hr

theorem Places.puts (h : Places s v q anchor e) (hu : Fixes Store.unhoused e)
    (hp : s.layout.Placed) (hanchor : ∀ a, anchor = some a → a ≠ v ∧ s.layout.place a = some q) :
    Ends e s (fun _ s' => s.Puts v q anchor s') fun _ _ => True :=
  (h.and (hu.ends s)).mono (fun _ _ ⟨hr, hs⟩ => puts_of_renamed hp hanchor hr hs)
    fun _ _ _ => trivial

theorem Places.puts_last (h : Places s v q none e) (hu : Fixes Store.unhoused e)
    (hp : s.layout.Placed) : Ends e s (fun _ s' => s.Puts v q none s') fun _ _ => True :=
  h.puts hu hp nofun

theorem ends_puts_before {owner : Query ValueId} {list : ValueId → Place} {k : ValueId → Edit Unit}
    (howner : ∀ b, owner s = .ok b → s.layout.place a = some (list b))
    (h : ∀ b, Places s v (list b) (some a) (k b)) (hu : ∀ b, Fixes Store.unhoused (k b))
    (hp : s.layout.Placed) :
    Ends (do
      Query.expectDistinct v a
      k (← owner)) s
      (fun _ s' => ∃ q, Query.place a s = .ok (some q) ∧ s.Puts v q (some a) s')
      fun _ _ => True := by
  refine ends_bind.2 (ends_lift.2 ⟨fun _ hne => ?_, fun _ _ => trivial⟩)
  refine ends_bind.2 (ends_lift.2 ⟨fun b hb => ?_, fun _ _ => trivial⟩)
  have hne := Query.expectDistinct_ok.1 hne
  -- The anchor is another value of the same list, so it is still there once the value has left.
  have ha := howner b hb
  refine ((h b).puts (hu b) hp fun a' ha' => ?_).mono
    (fun _ _ hputs => ⟨list b, place_ok_of_layout ha, hputs⟩) fun _ _ h => h
  obtain rfl := Option.some.inj ha'
  exact ⟨hne.symm, ha⟩

end Edit

namespace Command

open Edit

/-- Where a command puts a value. -/
inductive Goal
  | last (p : Place)
  | before (anchor : ValueId)
  deriving DecidableEq

namespace Goal

def anchor? : Goal → Option ValueId
  | .last _ => none
  | .before a => some a

/-- The list is the given one or that of the anchor. -/
def Reaches (s : Store) (q : Place) : Goal → Prop
  | .last p => q = p
  | .before a => Query.place a s = .ok (some q)

end Goal

/-- The instruction or block that a command puts in a list, and where. -/
def puts? : Command → Option (ValueId × Goal)
  | .appendInstruction b i => some (i, .last (.instructions b))
  | .insertInstructionBefore i a => some (i, .before a)
  | .moveInstructionBefore i a => some (i, .before a)
  | .moveInstructionToEnd i b => some (i, .last (.instructions b))
  | .appendBlock f b => some (b, .last (.blocks f))
  | .insertBlockBefore b a => some (b, .before a)
  | .moveBlockBefore b a => some (b, .before a)
  | .moveBlockTo b f => some (b, .last (.blocks f))
  | _ => none

variable {s : Store} {c : Command} {v : ValueId} {goal : Goal} {total : Prop}

theorem ends_puts (hs : s.layout.Consistent total) (hc : c.puts? = some (v, goal)) :
    Ends c.run s (fun _ s' => ∃ q, goal.Reaches s q ∧ s.Puts v q goal.anchor? s')
      fun _ _ => True := by
  have hlast {e : Edit Unit} {p : Place}
      (h : Ends e s (fun _ s' => s.Puts v p none s') fun _ _ => True) :
      Ends (quiet e) s (fun _ s' => ∃ q, q = p ∧ s.Puts v q none s') fun _ _ => True :=
    ends_quiet (h.mono (fun _ _ h => ⟨p, rfl, h⟩) fun _ _ h => h)
  cases c with
  | appendInstruction b i =>
    obtain ⟨rfl, rfl⟩ := Prod.mk.inj (Option.some.inj hc)
    exact hlast ((places_insertInstruction hs.placed).puts_last unhoused_insertInstruction
      hs.placed)
  | insertInstructionBefore i a =>
    obtain ⟨rfl, rfl⟩ := Prod.mk.inj (Option.some.inj hc)
    exact ends_quiet (ends_puts_before (fun _ => Query.anchorBlock_ok.1)
      (fun _ => places_insertInstruction hs.placed) (fun _ => unhoused_insertInstruction) hs.placed)
  | moveInstructionBefore i a =>
    obtain ⟨rfl, rfl⟩ := Prod.mk.inj (Option.some.inj hc)
    exact ends_quiet (ends_puts_before (fun _ => Query.anchorBlock_ok.1)
      (fun _ => places_relocateInstruction hs) (fun _ => unhoused_relocateInstruction) hs.placed)
  | moveInstructionToEnd i b =>
    obtain ⟨rfl, rfl⟩ := Prod.mk.inj (Option.some.inj hc)
    exact hlast (ends_bind.2 (ends_lift.2 ⟨fun _ _ => (places_relocateInstruction hs).puts_last
      unhoused_relocateInstruction hs.placed, fun _ _ => trivial⟩))
  | appendBlock f b =>
    obtain ⟨rfl, rfl⟩ := Prod.mk.inj (Option.some.inj hc)
    exact hlast ((places_insertBlock hs.placed).puts_last unhoused_insertBlock hs.placed)
  | insertBlockBefore b a =>
    obtain ⟨rfl, rfl⟩ := Prod.mk.inj (Option.some.inj hc)
    exact ends_quiet (ends_puts_before (fun _ => Query.anchorFunction_ok.1)
      (fun _ => places_insertBlock hs.placed) (fun _ => unhoused_insertBlock) hs.placed)
  | moveBlockBefore b a =>
    obtain ⟨rfl, rfl⟩ := Prod.mk.inj (Option.some.inj hc)
    exact ends_quiet (ends_puts_before (fun _ => Query.anchorFunction_ok.1)
      (fun _ => places_relocateBlock hs) (fun _ => unhoused_relocateBlock) hs.placed)
  | moveBlockTo b f =>
    obtain ⟨rfl, rfl⟩ := Prod.mk.inj (Option.some.inj hc)
    exact hlast ((places_relocateBlock hs).puts_last unhoused_relocateBlock hs.placed)
  | _ => exact absurd hc nofun

/-- In the store that an unbroken run of commands leaves, a command that puts an instruction or
block in a list, and answers, changes that list, the one where the value stood, and nothing else. -/
theorem puts_afterAll (hash : String → UInt64) (config : Config) {cs : List Command}
    (h : unbroken { hash, config } cs = true) (hc : c.puts? = some (v, goal)) {r : Reply}
    {s' : Store} (hrun : c.run (afterAll { hash, config } cs) = .ok r s') :
    ∃ q, goal.Reaches (afterAll { hash, config } cs) q ∧
      (afterAll { hash, config } cs).Puts v q goal.anchor? s' := by
  obtain ⟨-, hs, -⟩ := afterAll_withTeardown config.verifyScopeTeardown h
    (Store.settled_empty hash config) (consistent_empty hash config)
  exact (ends_puts hs hc).of_ok hrun

theorem exists_of_isOk (h : (outcome s c).isOk = true) : ∃ r s', c.run s = .ok r s' := by
  unfold outcome at h
  cases hrun : c.run s with
  | ok r s' => exact ⟨r, s', rfl⟩
  | error x s' =>
    rw [hrun] at h
    cases h

/-- Two functions, of which one has two blocks. Their instructions have one name, and an
edit stops. -/
def parallelBlocks : List Command :=
  [.internType .void, .internType (.function ⟨0⟩ []), .createModule "m",
    .createFunction ⟨0⟩ "f" ⟨1⟩, .createFunction ⟨0⟩ "g" ⟨1⟩, .createBlock ⟨0⟩ "x",
    .createBlock ⟨0⟩ "y", .createBlock ⟨1⟩ "x",
    .buildInstruction "add" ⟨0⟩ [] (some "r") (.append ⟨2⟩),
    .buildInstruction "add" ⟨0⟩ [] (some "r") (.append ⟨4⟩),
    .buildInstruction "add" ⟨0⟩ [] (some "r") (.append ⟨4⟩), .setOperand ⟨5⟩ 0 none]

/-- An instruction goes to another function, between the two that are there. -/
theorem puts_parallelBlocks : unbroken { config := {} } parallelBlocks = true ∧
    (moveInstructionBefore ⟨5⟩ ⟨7⟩).puts? = some (⟨5⟩, .before ⟨7⟩) ∧
    ∃ r s', (moveInstructionBefore ⟨5⟩ ⟨7⟩).run (afterAll { config := {} } parallelBlocks) =
        .ok r s' ∧
      ∃ q, (Goal.before ⟨7⟩).Reaches (afterAll { config := {} } parallelBlocks) q ∧
        (afterAll { config := {} } parallelBlocks).Puts ⟨5⟩ q (some ⟨7⟩) s' := by
  have hunbroken : unbroken { config := {} } parallelBlocks = true := by decide +kernel
  have hputs : (moveInstructionBefore ⟨5⟩ ⟨7⟩).puts? = some (⟨5⟩, .before ⟨7⟩) := rfl
  have hok : (outcome (afterAll { config := {} } parallelBlocks)
      (moveInstructionBefore ⟨5⟩ ⟨7⟩)).isOk = true := by
    decide +kernel
  obtain ⟨r, s', hrun⟩ := exists_of_isOk hok
  exact ⟨hunbroken, hputs, r, s', hrun, puts_afterAll nameHash {} hunbroken hputs hrun⟩

example : Query.blockInstructions ⟨4⟩ (afterAll { config := {} }
      (parallelBlocks ++ [moveInstructionBefore ⟨5⟩ ⟨7⟩])) =
    .ok [⟨6⟩, ⟨5⟩, ⟨7⟩] := by
  decide +kernel

end Command

end ShaderIR
