import ShaderIR.Proofs.SparedValues

/-! Merging nodes, and the values that wrap them. Within a merge some locations hold a node and are
not recorded; a merge leaves those as they are and settles all others. -/

open ShaderIR.Core

namespace ShaderIR

def Node.withOperand (d : Node) (i : Nat) (new : NodeId) : Node :=
  match d.content with
  | .tuple ops => { d with content := .tuple (ops.set i (some new)) }
  | _ => d

theorem Node.withOperand_of_tuple {d : Node} {ops : List (Option NodeId)} {i : Nat} {new : NodeId}
    (h : d.content = .tuple ops) :
    d.withOperand i new = { d with content := .tuple (ops.set i (some new)) } := by
  rw [withOperand, h]

theorem Node.withOperand_storage (d : Node) (i : Nat) (new : NodeId) :
    (d.withOperand i new).storage = d.storage := by
  obtain ⟨_, c⟩ := d
  cases c <;> rfl

theorem Node.withOperand_kind (d : Node) (i : Nat) (new : NodeId) :
    (d.withOperand i new).content.kind = d.content.kind := by
  obtain ⟨_, c⟩ := d
  cases c <;> rfl

namespace Store

def IsEntered (s : Store) (w : ValueId) : Prop :=
  ∃ n : NodeId, s.metadata.wrapperOf[n]? = some w

/-- What merging nodes and the values that wrap them leaves alone: every value that is not
entered as a wrapper, where the values stand, and the values without uses. -/
structure Merged (s s' : Store) : Prop where
  types : s'.types = s.types
  constants : s'.constants = s.constants
  layout : s'.layout = s.layout
  nodes : s'.metadata.nodes.size = s.metadata.nodes.size
  wrappers : s'.metadata.wrapperOf.size ≤ s.metadata.wrapperOf.size
  entered : ∀ {w}, s'.IsEntered w → s.IsEntered w
  value : ∀ {v}, ¬ s.IsEntered v →
    (s'.values.get? v).map Value.unattached = (s.values.get? v).map Value.unattached
  unused : ∀ {v}, ¬ s.IsEntered v → s.uses.useList v = [] → s'.uses.useList v = []
  spares : s.Spares (fun p => p.kind ≠ .metadata) s'

variable {s s' s'' : Store} {r r' r'' : Location → Option NodeId}

theorem IsEntered.kind {w : ValueId} (h : s.IsEntered w) (hs : s.core.Sound r) :
    ∃ d, s.values.get? w = some d ∧ d.kind = .metadata := by
  obtain ⟨n, hn⟩ := h
  obtain ⟨d', hd', hwrapped⟩ := Option.bind_eq_some_iff.1 (hs.recorded.wrapperOf hn)
  rw [get?_core] at hd'
  obtain ⟨d, hd, rfl⟩ := Option.map_eq_some_iff.1 hd'
  rw [Value.wrapped?_bare] at hwrapped
  refine ⟨d, hd, ?_⟩
  rw [Value.kind, Value.wrapped?_eq_some.1 hwrapped]
  rfl

theorem not_isEntered_of_kind {w : ValueId} {d : Value} (hs : s.core.Sound r)
    (hd : s.values.get? w = some d) (hk : d.kind ≠ .metadata) : ¬ s.IsEntered w := by
  intro hentered
  obtain ⟨d', hd', hk'⟩ := hentered.kind hs
  exact hk (Option.some.inj (hd.symm.trans hd') ▸ hk')

theorem Merged.refl (s : Store) : s.Merged s :=
  ⟨rfl, rfl, rfl, rfl, Nat.le_refl _, id, fun _ => rfl, fun _ h => h, .refl s⟩

theorem Merged.trans (h : s.Merged s') (h' : s'.Merged s'') : s.Merged s'' where
  types := h'.types.trans h.types
  constants := h'.constants.trans h.constants
  layout := h'.layout.trans h.layout
  nodes := h'.nodes.trans h.nodes
  wrappers := Nat.le_trans h'.wrappers h.wrappers
  entered hw := h.entered (h'.entered hw)
  value hv := (h'.value fun hv' => hv (h.entered hv')).trans (h.value hv)
  unused hv hu := h'.unused (fun hv' => hv (h.entered hv')) (h.unused hv hu)
  spares := h.spares.trans h'.spares

theorem merged_withMetadata {md : Metadata} (hn : md.nodes.size = s.metadata.nodes.size)
    (hs : md.wrapperOf.size ≤ s.metadata.wrapperOf.size)
    (hw : ∀ {w}, IsEntered { s with metadata := md } w → s.IsEntered w)
    (hl : s.WrapsLive → WrapsLive { s with metadata := md }) :
    s.Merged { s with metadata := md } :=
  ⟨rfl, rfl, rfl, hn, hs, hw, fun _ => rfl, fun _ h => h, spares_of_eq rfl rfl hl⟩

theorem merged_modifyValue {v : ValueId} {f : Value → Value} {d : Value}
    (hd : s.values.get? v = some d) (hr : (f d).resident? = d.resident?)
    (hk : (f d).kind = d.kind) (hc : (f d).constant? = d.constant?)
    (hv : (f d).unattached = d.unattached ∨ s.IsEntered v ∧ d.kind = .metadata) :
    s.Merged (s.modifyValue v f) := by
  have hget (w : ValueId) : (s.modifyValue v f).values.get? w =
      if v = w then some (f d) else s.values.get? w := by
    refine (Arena.get?_modify ..).trans ?_
    split
    next hvw => rw [← hvw, hd, Option.map_some]
    next => rfl
  refine ⟨rfl, rfl, layout_congr rfl rfl (fun _ _ => rfl) (fun _ => rfl) fun w => ?_, rfl,
    Nat.le_refl _, id, fun {w} hw => ?_, fun _ h => h,
    spares_modifyValue hd hk hc (hv.imp_right fun h => not_not_intro h.2)⟩
  · rw [Store.resident?, hget, Store.resident?]
    split
    next hvw => rw [← hvw, hd, Option.bind_some, Option.bind_some, hr]
    next => rfl
  · rw [hget]
    split
    next hvw =>
      obtain hv | hv := hv
      · rw [← hvw, hd, Option.map_some, Option.map_some, hv]
      · exact absurd (hvw ▸ hv.1) hw
    next => rfl

theorem Merged.without (h : s.Merged s') {v : ValueId} {d : Value} {t : Tracker}
    {ws : Std.ExtTreeMap NodeId ValueId} (hg : s'.uses.Sound s'.core.IsLive)
    (hd : s'.values.get? v = some d) (hk : d.kind = .metadata)
    (hn : s'.metadata.nodeOf[v]? = none) (hv : s.IsEntered v)
    (hws : ws = s'.metadata.wrapperOf) :
    s.Merged (s'.without v t ws) := by
  have hget (w : ValueId) : (s'.without v t ws).values.get? w =
      if v = w then none else s'.values.get? w := Arena.get?_erase ..
  refine ⟨h.types, h.constants, Eq.trans ?_ h.layout, h.nodes, ?_, fun {w} hn => ?_,
    fun {w} hw => ?_, fun {w} hw hu => ?_,
    h.spares.trans (spares_without hg hd (not_not_intro hk) hn)⟩
  · exact layout_without hd (by rw [hk]; rfl)
  · exact hws ▸ h.wrappers
  · refine h.entered ?_
    rwa [IsEntered, ← hws]
  · rw [hget, if_neg]
    · exact h.value hw
    · rintro rfl
      exact hw hv
  · refine (hg.useList_clearSlots w).trans ?_
    rw [h.unused hw hu, List.filter_nil]

/-- A merge leaves the locations alone that are not recorded, and settles the others. -/
structure Settles (s s' : Store) (r r' : Location → Option NodeId) : Prop where
  sound : s'.core.Sound r'
  merged : s.Merged s'
  waiting : ∀ l, r l = none → r' l = none ∧ s'.core.held l = s.core.held l
  recorded : ∀ l, r l ≠ none → r' l = s'.core.held l

theorem settles_of_held (h : s.core.Sound r) (hs : s'.core.Sound r) (hm : s.Merged s')
    (hheld : s'.core.held = s.core.held) : s.Settles s' r r := by
  refine ⟨hs, hm, fun l hl => ⟨hl, congrFun hheld l⟩, fun l hl => ?_⟩
  obtain ⟨n, hn⟩ := Option.ne_none_iff_exists'.1 hl
  rw [hn, hheld, h.recorded.held hn]

theorem Settles.trans (h : s.Settles s' r r') (h' : s'.Settles s'' r' r'') :
    s.Settles s'' r r'' where
  sound := h'.sound
  merged := h.merged.trans h'.merged
  waiting l hl := by
    obtain ⟨hr, hheld⟩ := h.waiting l hl
    obtain ⟨hr', hheld'⟩ := h'.waiting l hr
    exact ⟨hr', hheld'.trans hheld⟩
  recorded l hl := by
    by_cases hr : r' l = none
    · obtain ⟨hr', hheld'⟩ := h'.waiting l hr
      rw [hr', hheld', ← h.recorded l hl, hr]
    · exact h'.recorded l hr

theorem Settles.settled (h : s.Settles s' s.core.held r') : s'.Settled := by
  refine Edit.settled_of_eq h.sound (funext fun l => ?_)
  by_cases hl : s.core.held l = none
  · obtain ⟨hr, hheld⟩ := h.waiting l hl
    rw [hheld, hl, hr]
  · exact (h.recorded l hl).symm

structure Retargeted (s s' : Store) (r : Location → Option NodeId) (l : Location)
    (new : NodeId) : Prop where
  sound : s'.core.Sound (Function.update r l (some new))
  held : s'.core.held = Function.update s.core.held l (some new)
  merged : s.Merged s'

end Store

theorem Metadata.Consistent.makeDistinct {md : Metadata} (h : md.Consistent) {n : NodeId}
    {d : Node} {ops : List (Option NodeId)} (hd : md.nodes.get? n = some d)
    (hu : d.storage = .uniqued) (hc : d.content = .tuple ops) :
    ({ md with nodes := md.nodes.modify n fun d => { d with storage := .distinct } } :
      Metadata).Consistent := by
  refine h.modify hd rfl (fun m => ?_) (fun _ => Iff.rfl) (by simp [hc]) (by simp) rfl
  split
  next hnm =>
    rw [← hnm, h.replaceable]
    simp [hd, Node.IsReplaceable, hc, hu]
  next => rfl

namespace Core

variable {c : Core} {r : Location → Option NodeId} {n : NodeId}

theorem Sound.rewriteNode (h : c.Sound r) {md : Metadata} {d : Node} {f : Node → Node}
    (hc : md.Consistent) (hd : c.metadata.nodes.get? n = some d)
    (hn : md.nodes = c.metadata.nodes.modify n f) (hh : md.handles = c.metadata.handles)
    (ht : md.tracker = c.metadata.tracker) (hw : md.wrapperOf = c.metadata.wrapperOf)
    (hl : ∀ i : Nat, (f d).content.operands[i]?.join = d.content.operands[i]?.join ∨
      r (.operand n i) = none ∧
        ∀ m, (f d).content.operands[i]?.join = some m → m.index < c.metadata.nodes.size) :
    Sound { c with metadata := md } r ∧
      held { c with metadata := md } = setOperands n (f d).content.operands c.held := by
  have hheld := (held_of_nodes c hn hh).trans (held_modifyNode c hd f)
  have hsize : md.nodes.size = c.metadata.nodes.size := hn ▸ Arena.size_modify ..
  refine ⟨h.of_metadata hc (h.recorded.of_held ht hw (Nat.le_of_eq hsize.symm) fun l => ?_), hheld⟩
  rw [hheld]
  cases l with
  | operand m i =>
    by_cases hm : m = n
    · subst hm
      obtain hi | ⟨hr, hi⟩ := hl i
      · exact .inl (by rw [setOperands_self, hi, held_operand c hd])
      · refine .inr ⟨hr, by simp, fun m' hm' => ?_⟩
        rw [setOperands_self] at hm'
        exact hsize ▸ hi m' hm'
    · exact .inl (by simp [setOperands, hm])
  | _ => exact .inl rfl

theorem Sound.setHandle (h : c.Sound r) {k : HandleId} {o o' : Option NodeId}
    (hk : c.metadata.handles.get? k = some o') (hr : r (.handle k) = none)
    (ho : ∀ n, o = some n → n.index < c.metadata.nodes.size) :
    (c.withHandles (c.metadata.handles.set k o)).Sound r := by
  have hheld (l : Location) := congrFun (held_setHandle c (o := o) hk) l
  refine h.of_metadata (h.consistent.congr rfl rfl fun _ => Iff.rfl)
    (h.recorded.of_held rfl rfl (Nat.le_refl _) fun l => ?_)
  change (c.withHandles _).held l = _ ∨ _ ∧ _ ∧ ∀ n, (c.withHandles _).held l = _ → _
  rw [hheld, Function.update_apply]
  split
  next hl => exact .inr ⟨hl ▸ hr, by simp [hl], ho⟩
  next => exact .inl rfl

end Core

theorem map_eq_setAttachment {as : List (TagId × NodeId)} {tag : TagId} {n : NodeId}
    (h : (as.map Prod.fst).Nodup) (ht : tag ∈ as.map Prod.fst) :
    (as.map fun a => if a.1 = tag then (a.1, n) else a) = setAttachment tag (some n) as := by
  induction as with
  | nil => cases ht
  | cons a as ih =>
    rw [List.map_cons, List.nodup_cons] at h
    rw [List.map_cons, setAttachment]
    split
    next hat =>
      have hrest : (as.map fun a => if a.1 = tag then (a.1, n) else a) = as := by
        conv_rhs => rw [← List.map_id as]
        refine List.map_congr_left fun b hb => if_neg fun hbt => h.1 ?_
        rw [hat, ← hbt]
        exact List.mem_map_of_mem hb
      rw [hrest, hat]
      rfl
    next hat =>
      rw [List.map_cons, List.mem_cons] at ht
      rw [ih h.2 (ht.resolve_left (Ne.symm hat))]

namespace Edit

variable {s p : Store} {r : Location → Option NodeId} {l : Location} {n old new : NodeId}

theorem ends_track_written (h : p.core.Sound r) (hl : r l = none)
    (hheld : p.core.held = Function.update s.core.held l (some new)) (hm : s.Merged p)
    (hw : ∀ w, l = .wrapper w → p.metadata.wrapperOf[new]? = some w) :
    Ends (track l new) p (fun _ s' => (∃ t, s' = p.withTracker t) ∧ s.Retargeted s' r l new)
      fun _ _ => False := by
  refine Ends.weaken (ends_track h.recorded.follows hl) ?_
  rintro _ _ ⟨t, rfl, ht, hi⟩
  refine ⟨⟨t, rfl⟩, h.tracked ht hi ?_ ?_, hheld, hm.trans ?_⟩
  · rw [hheld, Function.update_self]
  · rintro w m hlw hm'
    obtain rfl := Option.some.inj hm'
    exact hw w hlw
  · exact Store.merged_withMetadata rfl (Nat.le_refl _) id fun hl => hl

theorem ends_retargetHandle (hs : s.core.Sound r) {h : HandleId} (hl : r (.handle h) = none)
    (hheld : s.core.held (.handle h) = some old) (hn : new.index < s.metadata.nodes.size) :
    Ends (retargetHandle h new) s (fun _ s' => s.Retargeted s' r (.handle h) new ∧
      s'.metadata.wrapperOf = s.metadata.wrapperOf) fun _ _ => False := by
  obtain ⟨o, ho, -⟩ := Option.bind_eq_some_iff.1 hheld
  have hset := held_setHandle s.core (o := some new) ho
  have hs' : (s.withHandles (s.metadata.handles.set h (some new))).core.Sound r :=
    hs.setHandle ho hl fun m hm => Option.some.inj hm ▸ hn
  unfold retargetHandle
  rw [ends_bind, ends_modify]
  refine Ends.weaken (ends_track_written (s := s) (p := s.withHandles _) hs' hl hset
    (Store.merged_withMetadata rfl (Nat.le_refl _) id fun hl => hl) (by simp)) ?_
  rintro _ _ ⟨⟨t, rfl⟩, h⟩
  exact ⟨h, rfl⟩

theorem ends_retargetAttachment (hs : s.core.Sound r) {v : ValueId} {tag : TagId}
    (hl : r (.attachment v tag) = none) (hheld : s.core.held (.attachment v tag) = some old)
    (hn : new.index < s.metadata.nodes.size) :
    Ends (retargetAttachment v tag new) s (fun _ s' =>
      s.Retargeted s' r (.attachment v tag) new ∧
        s'.metadata.wrapperOf = s.metadata.wrapperOf) fun _ _ => False := by
  obtain ⟨d', hd', hfind⟩ := Option.bind_eq_some_iff.1 hheld
  have hwell := hs.attached hd'
  rw [Store.get?_core] at hd'
  obtain ⟨d, hd, rfl⟩ := Option.map_eq_some_iff.1 hd'
  have htag : tag ∈ d.attachments.map Prod.fst := by
    obtain ⟨a, ha, -⟩ := Option.map_eq_some_iff.1 hfind
    exact List.mem_map.2 ⟨a, List.mem_of_find?_eq_some ha, by simpa using List.find?_some ha⟩
  have hkind : d.bare.kind ≠ .metadata := fun hk => by
    rw [show d.attachments = [] from hwell.wrapper hk] at htag
    cases htag
  have hget : s.core.values.get? v = some d.bare := by rw [Store.get?_core, hd]; rfl
  have hmap := map_eq_setAttachment (n := new) hwell.tags htag
  have hcore : (s.modifyValue v fun d => { d with
      attachments := d.attachments.map fun a => if a.1 = tag then (a.1, new) else a }).core =
      s.core.withAttachments v (setAttachment tag (some new)) := by
    have hwrite : (s.modifyValue v fun d => { d with
        attachments := d.attachments.map fun a => if a.1 = tag then (a.1, new) else a }).core =
        s.core.withAttachments v fun as => as.map fun a =>
          if a.1 = tag then (a.1, new) else a := Store.core_modifyValue _ _ fun _ => rfl
    rw [hwrite, withAttachments, withAttachments, Arena.modify_congr fun x hx => ?_]
    obtain rfl := Option.some.inj (hget.symm.trans hx)
    exact congrArg (fun as => { d.bare with attachments := as }) hmap
  have hs' := hs.setAttachment hget hkind hl fun m hm => Option.some.inj hm ▸ hn
  unfold retargetAttachment
  rw [ends_bind, ends_modifyValue hd]
  refine Ends.weaken (ends_track_written (s := s) (p := s.modifyValue v _) (hcore ▸ hs') hl
    (hcore ▸ held_setAttachment hget hwell) ?_ (by simp)) ?_
  · exact Store.merged_modifyValue hd rfl rfl rfl (.inl rfl)
  · rintro _ _ ⟨⟨t, rfl⟩, h⟩
    exact ⟨h, rfl⟩

theorem retargeted_withUniqued (h : s.Retargeted p r l new)
    (u : Std.ExtTreeMap Content NodeId) :
    s.Retargeted (p.modifyMetadata fun md => { md with uniqued := u }) r l new where
  sound := h.sound.of_metadata (h.sound.consistent.congr rfl rfl fun _ => Iff.rfl)
    (h.sound.recorded.of_held rfl rfl (Nat.le_refl _) fun _ => .inl rfl)
  held := h.held
  merged := h.merged.trans (Store.merged_withMetadata rfl (Nat.le_refl _) id fun hl => hl)

theorem retargeted_makeDistinct (h : s.Retargeted p r l new) {d : Node}
    {ops : List (Option NodeId)}
    (hd : p.metadata.nodes.get? n = some d) (hu : d.storage = .uniqued)
    (hc : d.content = .tuple ops) : s.Retargeted (p.modifyMetadata fun md =>
      { md with nodes := md.nodes.modify n fun d => { d with storage := .distinct } }) r l new := by
  obtain ⟨hs, hheld⟩ := h.sound.rewriteNode (h.sound.consistent.makeDistinct hd hu hc) hd rfl rfl
    rfl rfl fun _ => .inl rfl
  refine ⟨hs, Eq.trans ?_ h.held, h.merged.trans ?_⟩
  · exact hheld.trans (setOperands_eq_self fun j => held_operand p.core hd j)
  · exact Store.merged_withMetadata (Arena.size_modify ..) (Nat.le_refl _) id fun hl => hl

theorem ends_retargetOperand (hs : s.core.Sound r) {i : Nat} (hl : r (.operand n i) = none)
    (hheld : s.core.held (.operand n i) = some old) (hn : new.index < s.metadata.nodes.size) :
    Ends (retargetOperand n i new) s (fun _ s' => s.Retargeted s' r (.operand n i) new ∧
      s'.metadata.wrapperOf = s.metadata.wrapperOf) fun _ _ => False := by
  obtain ⟨d, hd, hop⟩ := Option.bind_eq_some_iff.1 hheld
  obtain ⟨ops, hc⟩ : ∃ ops, d.content = .tuple ops := by
    cases hc : d.content <;> simp [hc, Content.operands] at hop ⊢
  have hlt : i < ops.length := by
    refine Nat.lt_of_not_le fun hle => ?_
    simp [hc, Content.operands, List.getElem?_eq_none hle] at hop
  let f : Node → Node := fun d => d.withOperand i new
  have hf : f d = { d with content := .tuple (ops.set i (some new)) } := Node.withOperand_of_tuple hc
  have hset (j : Nat) : (ops.set i (some new))[j]?.join =
      if j = i then some new else ops[j]?.join := by
    rw [List.getElem?_set]
    grind
  have hcons : ({ s.metadata with nodes := s.metadata.nodes.modify n f } : Metadata).Consistent :=
    hs.consistent.putOperands hd hc (Arena.modify_congr fun x hx => by
      obtain rfl := Option.some.inj (hd.symm.trans hx)
      exact hf) (fun _ => Iff.rfl) rfl
  obtain ⟨hs', hheld'⟩ := hs.rewriteNode (f := f) hcons hd rfl rfl rfl rfl fun j => by
    rw [hf, Content.operands, hset, hc, Content.operands]
    split
    next hj => exact .inr ⟨hj ▸ hl, fun m hm => Option.some.inj hm ▸ hn⟩
    next => exact .inl rfl
  have hnew : Function.update s.core.held (.operand n i) (some new) =
      setOperands n (ops.set i (some new)) s.core.held := by
    conv_lhs => rw [← setOperands_held hd hc]
    exact update_setOperands _ hset
  rw [hf, Content.operands, ← hnew] at hheld'
  unfold retargetOperand
  rw [ends_bind, ends_lift_ok (Query.node_ok.2 hd), ends_bind, ends_modifyNode hd, ends_bind]
  refine Ends.weaken (ends_track_written (s := s) (p := s.modifyMetadata fun md =>
    { md with nodes := md.nodes.modify n f }) hs' hl hheld'
    (Store.merged_withMetadata (Arena.size_modify ..) (Nat.le_refl _) id fun hl => hl)
    (by simp)) ?_
  rintro _ p₁ ⟨⟨t, hp₁⟩, h⟩
  split
  next hu =>
    have hm : p₁.metadata.nodes.get? n = some (f d) := by
      simp [hp₁, Store.withTracker, Store.modifyMetadata, Arena.get?_modify,
        show s.metadata.nodes.get? n = some d from hd]
    have hw : p₁.metadata.wrapperOf = s.metadata.wrapperOf := by rw [hp₁]; rfl
    rw [ends_bind, ends_modify]
    obtain ⟨p₂, hp₂, h₂, hm₂, hw₂⟩ : ∃ p₂, (p₁.modifyMetadata fun md =>
        if md.uniqued[d.content]? = some n
          then { md with uniqued := md.uniqued.erase d.content } else md) = p₂ ∧
        s.Retargeted p₂ r (.operand n i) new ∧ p₂.metadata.nodes.get? n = some (f d) ∧
        p₂.metadata.wrapperOf = s.metadata.wrapperOf := by
      refine ⟨_, rfl, ?_⟩
      by_cases hun : p₁.metadata.uniqued[d.content]? = some n
      · simp only [Store.modifyMetadata, hun, if_true]
        exact ⟨retargeted_withUniqued h _, hm, hw⟩
      · simp only [Store.modifyMetadata, hun, if_false]
        exact ⟨h, hm, hw⟩
    rw [hp₂, ends_bind, ends_lift_ok (Query.node_ok.2 hm₂), ends_bind, ends_get]
    split
    · exact ⟨retargeted_withUniqued h₂ _, hw₂⟩
    · rw [ends_modifyNode hm₂]
      rw [hf] at hm₂
      exact ⟨retargeted_makeDistinct h₂ hm₂ hu rfl, hw₂⟩
  next => exact ⟨h, by rw [hp₁]; rfl⟩

end Edit

end ShaderIR
