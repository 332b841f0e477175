import ShaderIR.Proofs.Reachable

/-! How deep replacements nest. Replacing values folds block addresses and merges the nodes that
wrap values, and merging nodes replaces the values that wrap those. Each merge takes up one wrapper,
so the wrappers that live when a replacement begins bound how many are ever active at a time. -/

namespace ShaderIR

/-- How many of the live values wrap nodes. -/
def Store.wrapperCount (s : Store) : Nat :=
  (s.values.toList.filter fun v => v.2.kind = .metadata).length

theorem Store.Settled.wrapperOf_size_le_wrapperCount {s : Store} (h : s.Settled) :
    s.metadata.wrapperOf.size ≤ s.wrapperCount := by
  refine Nat.le_trans (h.wrapperOf_size_le_length
    ((s.values.toList.filter fun v => v.2.kind = .metadata).map Prod.fst) fun {w n} hw => ?_) ?_
  · rw [Core.held, get?_core] at hw
    obtain ⟨d', hd', hw⟩ := Option.bind_eq_some_iff.1 hw
    obtain ⟨d, hd, rfl⟩ := Option.map_eq_some_iff.1 hd'
    have hk : d.kind = .metadata := by
      rw [Value.kind, Value.bare_payload_metadata.1 (Value.wrapped?_eq_some.1 hw)]
      rfl
    exact List.mem_map.2 ⟨(w, d), List.mem_filter.2 ⟨Arena.mem_toList.2 hd, by simpa using hk⟩, rfl⟩
  · exact Nat.le_of_eq (List.length_map ..)

theorem Store.wrapperCount_le (s : Store) : s.wrapperCount ≤ s.values.size := by
  refine Nat.le_trans (List.length_filter_le ..) (Nat.le_trans (List.length_filterMap_le ..) ?_)
  exact Nat.le_of_eq (by rw [Arena.indices, List.length_map, List.length_range])

namespace Edit

variable {P : Fault → Prop} {α : Type}

section Alike

/-! Two replacements that differ only in how those within them are done. -/

variable {nested nested' : ValueId → ValueId → Edit Unit}
variable (hn : ∀ old new, Alike P id (nested old new) (nested' old new))

include hn

theorem alike_retargetWrapper (w : ValueId) (n m : NodeId) :
    Alike P id (retargetWrapper nested w n m) (retargetWrapper nested' w n m) := by
  refine (Alike.refl _).bind fun _ => .get_bind fun s => ?_
  dsimp only [id]
  split
  · exact (hn _ _).bind fun _ => .refl _
  · exact .refl _

theorem alike_retarget (n m : NodeId) (l : Location) :
    Alike P id (retarget nested n m l) (retarget nested' n m l) := by
  cases l with
  | wrapper w => exact alike_retargetWrapper hn w n m
  | operand | handle | attachment => exact .refl _

theorem alike_replaceNodeStep (n m : NodeId) :
    Alike P id (replaceNodeStep nested n m) (replaceNodeStep nested' n m) :=
  .ite (.refl _) (.get_bind fun _ => .guard (.refl _) ((Alike.refl _).bind fun _ =>
    .get_bind fun _ => (Alike.refl _).bind fun _ => .forM (alike_retarget hn n m) _))

theorem alike_moveValueNode (old new : ValueId) :
    Alike P id (moveValueNode nested old new) (moveValueNode nested' old new) := by
  refine .get_bind fun s => ?_
  dsimp only [id]
  split
  · exact .refl _
  · exact (alike_replaceNodeStep hn _ _).bind fun _ => .refl _
  · exact .refl _

theorem alike_internBlockAddress (v : ValueId) (key : ConstantKey) :
    Alike P id (internBlockAddress nested v key) (internBlockAddress nested' v key) := by
  refine (Alike.refl _).bind fun _ => (Alike.refl _).bind fun after => ?_
  split
  · refine .get_bind fun s => ?_
    dsimp only [id]
    split
    · exact .refl _
    · exact .ite ((hn _ _).bind fun _ => .refl _) (.refl _)
  · exact .refl _

theorem alike_moveEdges (new : ValueId) (es : List EdgeId) :
    Alike P id (moveEdges nested new es) (moveEdges nested' new es) := by
  rw [moveEdges_eq, moveEdges_eq]
  refine (Alike.refl (gather new es)).bind fun noted => ?_
  refine Alike.forM (fun c => ?_) noted
  exact alike_internBlockAddress hn c.1 c.2

theorem alike_replaceStep (old new : ValueId) :
    Alike P id (replaceStep nested old new) (replaceStep nested' old new) :=
  .ite (.refl _) ((Alike.refl _).bind fun _ => (Alike.refl _).bind fun _ =>
    (alike_moveEdges hn _ _).bind fun _ => alike_moveValueNode hn old new)

end Alike

theorem alike_replaceWithin (depth depth' : Nat) (old new : ValueId) :
    Alike Fault.IsExhaustion id (replaceWithin depth old new) (replaceWithin depth' old new) := by
  induction depth generalizing depth' old new with
  | zero => exact fun s => .inl ⟨_, s, rfl, trivial⟩
  | succ depth ih =>
    cases depth' with
    | zero => exact fun s => .inr (.inl ⟨_, s, rfl, trivial⟩)
    | succ depth' => exact alike_replaceStep (ih depth') old new

theorem alike_replaceUsesIfWithin {σ : Type} (depth depth' : Nat) (old new : ValueId)
    (ask : σ → Use → Bool × σ) (st : σ) : Alike Fault.IsExhaustion id
      (replaceUsesIfWithin depth old new ask st) (replaceUsesIfWithin depth' old new ask st) :=
  .ite (.refl _) ((Alike.refl _).bind fun _ => (Alike.refl _).bind fun _ => .get_bind fun _ =>
    (alike_moveEdges (alike_replaceWithin depth depth') _ _).bind fun _ => .refl _)

/-- An edit, of which replacements of values are part, that has no more than so many of them active
at a time: given room for so many it does not run out of room, and with more it does the same. -/
structure NestsWithin (e : Edit α) (within : Nat → Edit α) (depth : Nat) (s : Store) : Prop where
  enough : ¬ Stops Fault.IsExhaustion (within depth) s
  same : ∀ room, depth ≤ room → within room s = e s

variable {s : Store} {L : Layout} {k : Nat} {e : Edit α} {within : Nat → Edit α}

theorem Safe.not_stops {I : Store → Prop} (he : Safe Fault.IsOrdinary I e) (hs : I s) :
    ¬ Stops Fault.IsExhaustion e s := fun h =>
  stops_iff.1 h ((he s hs).mono (fun _ _ _ => trivial) fun _ _ hx => hx.1.exhaustion)

theorem nestsWithin_of_safe (extra : Nat) (hs : s.SettledIn L k)
    (hsafe : ∀ k, Safe Fault.IsOrdinary (Store.SettledIn L k) (within (k + extra)))
    (halike : ∀ depth depth', Alike Fault.IsExhaustion id (within depth) (within depth'))
    (he : ∃ bound, k + extra ≤ bound ∧ e s = within bound s) :
    NestsWithin e within (k + extra) s := by
  have hfits (room : Nat) (hroom : k + extra ≤ room) :
      ¬ Stops Fault.IsExhaustion (within room) s := by
    obtain ⟨more, rfl⟩ := Nat.exists_eq_add_of_le hroom
    rw [Nat.add_right_comm]
    exact (hsafe (k + more)).not_stops
      ⟨hs.settled, hs.layout, Nat.le_trans hs.wrappers (Nat.le_add_right ..)⟩
  refine ⟨hfits _ (Nat.le_refl _), fun room hroom => ?_⟩
  obtain ⟨bound, hbound, he⟩ := he
  refine he ▸ ((((halike bound room) s).resolve_left (hfits bound hbound)).resolve_left
    (hfits room hroom)).trans (mapStore_id _)

/-- Replacements of values nest at most two deeper than there are wrappers, whether all uses of a
value are replaced, or those that a predicate accepts, or all uses of a node. -/
theorem replacements_nest_within_wrappers (hash : String → UInt64) (config : Config)
    (cs : List Command) (old new : ValueId)
    {σ : Type} (ask : σ → Use → Bool × σ) (st : σ) (n m : NodeId) :
    let s := Command.afterAll { hash, config } cs
    NestsWithin (replaceAllUses old new) (replaceWithin · old new) (s.wrapperCount + 2) s ∧
      NestsWithin (replaceUsesIf old new ask st) (replaceUsesIfWithin · old new ask st)
        (s.wrapperCount + 1) s ∧
      NestsWithin (replaceNode n m) (fun depth => replaceNodeStep (replaceWithin depth) n m)
        s.wrapperCount s := by
  intro s
  have hsettled : s.Settled := Command.settled_afterAll hash config cs
  have hs : s.SettledIn s.layout s.wrapperCount :=
    ⟨hsettled, rfl, hsettled.wrapperOf_size_le_wrapperCount⟩
  have hle : s.wrapperCount ≤ s.values.size := s.wrapperCount_le
  refine ⟨?_, ?_, ?_⟩
  · exact nestsWithin_of_safe 2 hs (fun _ => safe_replaceWithin)
      (fun depth depth' => alike_replaceWithin depth depth' old new)
      ⟨nestingBound s, Nat.add_le_add_right hle 2, rfl⟩
  · exact nestsWithin_of_safe 1 hs (fun _ => safe_replaceUsesIfWithin)
      (fun depth depth' => alike_replaceUsesIfWithin depth depth' old new ask st)
      ⟨nestingBound s, Nat.add_le_add hle (Nat.le_succ 1), replaceUsesIf_eq s⟩
  · exact nestsWithin_of_safe 0 hs (fun _ => safe_replaceNodeStep)
      (fun depth depth' => alike_replaceNodeStep (alike_replaceWithin depth depth') n m)
      ⟨nestingBound s, Nat.le_trans hle (Nat.le_add_right _ 2), rfl⟩

end Edit

end ShaderIR
