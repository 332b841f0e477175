import ShaderIR.Proofs.LocationSafety

/-! What replacing a node makes of the tuples, while no node wraps a value that wraps a node
itself. A uniqued tuple passes through one content after the other and is uniqued no longer once
it meets a tuple of its content, which may be half rewritten itself. What carries the loop is
therefore content up to the replacement: in the end every tuple has its former operands with the
new node in the place of the old one, and one that is uniqued no longer has a uniqued twin. -/

open ShaderIR.Core

namespace ShaderIR

/-- Content with one node in the place of another. -/
def Content.redirect (old new : NodeId) : Content → Content
  | .tuple ops => .tuple (ops.map fun o => if o = some old then some new else o)
  | c => c

namespace Content

variable {c : Content} {old new : NodeId}

theorem kind_redirect : (c.redirect old new).kind = c.kind := by
  cases c <;> rfl

theorem operands_redirect : (c.redirect old new).operands =
    c.operands.map fun o => if o = some old then some new else o := by
  cases c <;> rfl

theorem redirect_of_not_mem (h : some old ∉ c.operands) : c.redirect old new = c := by
  cases c with
  | tuple ops =>
    refine congrArg tuple ((List.map_congr_left fun o ho => ?_).trans ops.map_id)
    exact if_neg fun hold : o = some old => h (hold ▸ ho)
  | _ => rfl

theorem redirect_self : c.redirect old old = c := by
  cases c with
  | tuple ops =>
    refine congrArg tuple ((List.map_congr_left fun o _ => ?_).trans ops.map_id)
    exact ite_eq_right_iff.2 Eq.symm
  | _ => rfl

end Content

theorem Node.redirect_withOperand {d : Node} {old new : NodeId} {i : Nat}
    (hi : d.content.operands[i]? = some (some old)) :
    (d.withOperand i new).content.redirect old new = d.content.redirect old new := by
  obtain ⟨k, c⟩ := d
  cases c with
  | tuple ops =>
    have hi : ops[i]? = some (some old) := hi
    refine congrArg Content.tuple (List.ext_getElem? fun j => ?_)
    rw [List.getElem?_map, List.getElem?_map, List.getElem?_set]
    split
    next hij =>
      subst hij
      obtain ⟨hlt, -⟩ := List.getElem?_eq_some_iff.1 hi
      rw [if_pos hlt, hi]
      simp
    next => rfl
  | _ => cases hi

namespace Store

variable {s p s' : Store} {old new n m : NodeId} {d d' : Node} {c : Content} {k : Storage}
variable {f : Content → Content} {i : Nat}

def interning (s : Store) :
    Arena .node Node × Std.ExtTreeMap Content NodeId × Std.ExtTreeMap ValueId NodeId :=
  (s.metadata.nodes, s.metadata.uniqued, s.metadata.nodeOf)

instance : Lasting Store.interning where
  tracker _ _ := rfl
  handles _ _ := rfl
  tags _ _ := rfl
  attachments _ _ _ := rfl
  named _ _ _ := rfl
  table _ _ _ := rfl
  uses _ _ := rfl
  constants _ _ := rfl
  wrappers _ _ := rfl
  wrapped _ _ _ := rfl

def HasTwin (f : Content → Content) (s : Store) (c : Content) : Prop :=
  ∃ m d, s.metadata.nodes.get? m = some d ∧ d.storage = .uniqued ∧ f d.content = f c

/-- Every node has the content that it had, as far as a view can tell, and its storage; but one that
held a certain node may be uniqued no longer, if it has a uniqued twin. -/
def Rewords (f : Content → Content) (old : NodeId) (s s' : Store) : Prop :=
  ∀ n d, s.metadata.nodes.get? n = some d → ∃ d', s'.metadata.nodes.get? n = some d' ∧
    f d'.content = f d.content ∧ (d'.storage = d.storage ∨ d.storage = .uniqued ∧
      d'.storage = .distinct ∧ some old ∈ d.content.operands ∧ s'.HasTwin f d.content)

theorem rewords_refl : s.Rewords f old s := fun _ d hd => ⟨d, hd, rfl, .inl rfl⟩

theorem Rewords.congr (h : s.Rewords f old p) (hs : s'.metadata.nodes = p.metadata.nodes) :
    s.Rewords f old s' := by
  unfold Rewords HasTwin
  rw [hs]
  exact h

structure Reworded (s s' : Store) (n : NodeId) (d d' : Node) : Prop where
  interned : Edit.Interned s
  before : s.metadata.nodes.get? n = some d
  reinterns : Edit.Reinterns s.ledger n d d'.content d'.storage s'.metadata.uniqued
  after : s'.metadata.nodes.get? n = some d'
  others : ∀ m, m ≠ n → s'.metadata.nodes.get? m = s.metadata.nodes.get? m

namespace Reworded

theorem storage (h : s.Reworded s' n d d') : d'.storage = d.storage ∨ d.storage = .uniqued ∧
    d'.storage = .distinct ∧ s'.HasTwin f d'.content := by
  obtain hk | ⟨hu, hk, m, hmn, hm⟩ := h.reinterns.storage h.interned h.before
  · exact .inl hk
  · obtain ⟨dm, hdm, hum, hcm⟩ := Ledger.contentOf_eq_some.1 hm
    exact .inr ⟨hu, hk, m, dm, (h.others m hmn).trans hdm, hum, congrArg f hcm⟩

theorem hasTwin (h : s.Reworded s' n d d') (hf : f d'.content = f d.content) (ht : s.HasTwin f c) :
    s'.HasTwin f c := by
  obtain ⟨m, dm, hdm, hum, hcm⟩ := ht
  by_cases hmn : m = n
  · subst hmn
    obtain rfl := Option.some.inj (h.before.symm.trans hdm)
    obtain hk | ⟨-, -, x, dx, hdx, hux, hcx⟩ := h.storage (f := f)
    · exact ⟨m, d', h.after, hk.trans hum, hf.trans hcm⟩
    · exact ⟨x, dx, hdx, hux, hcx.trans (hf.trans hcm)⟩
  · exact ⟨m, dm, (h.others m hmn).trans hdm, hum, hcm⟩

end Reworded

theorem Rewords.step {d₀ : Node} (h : s.Rewords f old p) (hp : p.Reworded s' n d d')
    (hf : f d'.content = f d.content) (hd₀ : s.metadata.nodes.get? n = some d₀)
    (hold : some old ∈ d₀.content.operands) : s.Rewords f old s' := by
  intro m dm hdm
  obtain ⟨dp, hdp, hcp, hkp⟩ := h m dm hdm
  by_cases hmn : m = n
  · subst hmn
    obtain rfl := Option.some.inj (hdm.symm.trans hd₀)
    obtain rfl := Option.some.inj (hdp.symm.trans hp.before)
    refine ⟨d', hp.after, hf.trans hcp, ?_⟩
    obtain hk | ⟨hu, hk, htwin⟩ := hp.storage (f := f)
    · rw [hk]
      exact hkp.imp_right fun ⟨hu, hk, hold, ht⟩ => ⟨hu, hk, hold, hp.hasTwin hf ht⟩
    · have hum : dm.storage = .uniqued := hkp.elim (fun heq => heq ▸ hu) And.left
      obtain ⟨x, dx, hdx, hux, hcx⟩ := htwin
      exact .inr ⟨hum, hk, hold, x, dx, hdx, hux, hcx.trans (hf.trans hcp)⟩
  · refine ⟨dp, (hp.others m hmn).trans hdp, hcp, ?_⟩
    exact hkp.imp_right fun ⟨hu, hk, hold, ht⟩ => ⟨hu, hk, hold, hp.hasTwin hf ht⟩

end Store

open Store

namespace Edit

variable {nested : ValueId → ValueId → Edit Unit} {k i : Nat}
variable {s p : Store} {r : Location → Option NodeId} {w : ValueId} {old new n m : NodeId}

theorem interned_of_interning {s' : Store} (h : s'.interning = s.interning) (hs : Interned s) :
    Interned s' :=
  hs.congr (congrArg Prod.fst h) (congrArg (fun x => x.2.1) h) (congrArg (fun x => x.2.2) h)

theorem ends_destroyValue_interning (h : s.metadata.nodeOf[w]? = none) : Ends (destroyValue w) s
    (fun _ s' => s'.interning = s.interning) fun _ s' => s'.interning = s.interning := by
  have hdrop : Keeps (fun s' => s'.interning = s.interning) (dropValueNode w) := by
    intro p hp
    have hnone : p.metadata.nodeOf[w]? = none := by
      rw [show p.metadata.nodeOf = s.metadata.nodeOf from congrArg (fun x => x.2.2) hp, h]
    unfold dropValueNode
    rw [ends_bind, ends_get, hnone]
    exact hp
  have hview {p q : Store} (hq : q.interning = p.interning) (hp : p.interning = s.interning) :
      q.interning = s.interning := hq.trans hp
  exact keeps_destroyValue_of hview (keeps_dropUntrackedNode hdrop) (.modify fun _ hs => hs) s rfl

theorem ends_retargetWrapper_interning (hm : MovesUses nested) (hs : s.core.Sound r)
    (hl : r (.wrapper w) = none) (hheld : s.core.held (.wrapper w) = some old)
    (hold : s.metadata.wrapperOf[old]? = some w) (hplain : s.WrapsPlain) :
    Ends (retargetWrapper nested w old new) s (fun _ s' => s'.interning = s.interning)
      fun _ _ => True := by
  obtain ⟨d, hd, hk⟩ := held_wrapper hheld
  obtain ⟨hp, hnot, hpsize, -⟩ := unenter_spec hs hl hheld hold
  have hnode : s.metadata.nodeOf[w]? = none := by
    rw [Option.eq_none_iff_forall_ne_some]
    exact fun x hx => hplain w x d hx hd hk
  refine (ends_retargetWrapper_iff hold).2 ⟨fun e he => ?_, fun _ => ?_⟩
  · rw [ends_bind]
    refine Ends.mono (hm hp hd hk hnot ⟨new, he⟩ hnode) ?_ fun _ _ _ => trivial
    rintro _ q ⟨g, hq⟩
    have hnode' : q.metadata.nodeOf[w]? = none := by
      rw [hq]
      exact hnode
    have hsame : q.interning = s.interning := by
      rw [hq]
      rfl
    exact (ends_destroyValue_interning hnode').mono (fun _ _ h => h.trans hsame) fun _ _ _ => trivial
  · have hfixes : Fixes Store.interning (do
        modifyValue w (rewrap new)
        modify (·.modifyMetadata fun md => { md with wrapperOf := md.wrapperOf.insert new w })
        track (.wrapper w) new) :=
      .bind fixes_rewrap fun _ => .bind (.modify fun _ => rfl) fun _ => fixes_track
    exact (hfixes.ends (s.unenter old)).mono (fun _ _ h => h) fun _ _ _ => trivial

theorem ends_retarget_rewords (hm : MovesUses nested) {l : Location} {rest : List Location}
    (hv : Store.Visiting s s.core.held old (l :: rest) p r) (hplain : p.WrapsPlain)
    (hi : Interned p) (h : s.Rewords (Content.redirect old new) old p) :
    Ends (retarget nested old new l) p
      (fun _ s' => Interned s' ∧ s.Rewords (Content.redirect old new) old s')
      fun _ _ => True := by
  have hs := hv.sound
  obtain ⟨hstart, hl, hheld⟩ := hv.unvisited l (List.mem_cons_self ..)
  have hkeep {e : Edit Unit} (hf : Ends e p (fun _ s' => s'.interning = p.interning)
      fun _ _ => True) : Ends e p
      (fun _ s' => Interned s' ∧ s.Rewords (Content.redirect old new) old s')
      fun _ _ => True :=
    hf.mono (fun _ _ h' => ⟨interned_of_interning h' hi, h.congr (congrArg Prod.fst h')⟩)
      fun _ _ hx => hx
  have hfixes {e : Edit Unit} (hf : Fixes Store.interning e) : Ends e p
      (fun _ s' => s'.interning = p.interning) fun _ _ => True :=
    (hf.ends p).mono (fun _ _ h => h) fun _ _ _ => trivial
  cases l with
  | handle j => exact hkeep (hfixes fixes_retargetHandle)
  | attachment v tag => exact hkeep (hfixes fixes_retargetAttachment)
  | wrapper w =>
    exact hkeep (ends_retargetWrapper_interning hm hs hl hheld (hv.wrapper (List.mem_cons_self ..))
      hplain)
  | operand t i =>
    obtain ⟨d₀, hd₀, hop₀⟩ := Option.bind_eq_some_iff.1 hstart
    refine ((carries_retargetOperand_interned p hi).and
      (ends_retargetOperand_reinterns hi)).mono ?_ fun _ _ _ => trivial
    rintro _ s' ⟨hi', d, k', hd, hk, hself, hothers, -⟩
    rw [held_operand p.core hd] at hheld
    have hp : p.Reworded s' t d ⟨k', (d.withOperand i new).content⟩ := ⟨hi, hd, hk, hself, hothers⟩
    refine ⟨hi', h.step hp ?_ hd₀ ?_⟩
    · exact Node.redirect_withOperand (Option.join_eq_some_iff.1 hheld)
    · exact List.mem_of_getElem? (Option.join_eq_some_iff.1 hop₀)

theorem ends_replaceNodeStep_rewords (hn : MergesWrappers k nested) (hm : MovesUses nested)
    (hs : s.Settled) (hi : Interned s) (hplain : s.WrapsPlain)
    (hsize : s.metadata.wrapperOf.size ≤ k) : Ends (replaceNodeStep nested old new) s
      (fun _ s' => s.Rewords (Content.redirect old new) old s' ∧
        (old ≠ new → ∀ l, s'.core.held l ≠ some old)) fun _ _ => True := by
  refine ends_replaceNodeStep_of (fun heq => ⟨rewords_refl, fun hne => absurd heq hne⟩)
    (fun hne hold hnew => ?_) fun _ _ _ => trivial
  have hlt : new.index < s.metadata.nodes.size := hnew.elim fun _ hd => Arena.lt_size_of_get? hd
  -- What the tracker does not list does not hold the old node, since the store is settled.
  have hstart : Evicting old (s.metadata.tracker.tracked old)
      (s.withTracker (s.metadata.tracker.take old).2) :=
    ⟨hplain, fun l hl => (Tracker.mem_tracked hs.recorded.follows hold).2 hl⟩
  refine Ends.mono (ends_forM (E := fun _ _ => True) (fun rest s' =>
    (∃ r', Store.Visiting s s.core.held old rest s' r') ∧ Evicting old rest s' ∧
      Interned s' ∧ s.Rewords (Content.redirect old new) old s') ?_ _ _
    ⟨⟨_, visiting_take hs hold⟩, hstart, hi, rewords_refl⟩) (fun _ s' h => ⟨h.2.2.2, ?_⟩)
    fun _ _ _ => trivial
  · rintro l rest p ⟨⟨r', hv⟩, hev, hip, hp⟩
    have hvisit := ends_retarget hn hv hsize hlt
    have hredirect := ends_retarget_redirected hn hm hv hsize hlt hev.plain
    refine (hvisit.and (hredirect.and
      (ends_retarget_rewords hm hv hev.plain hip hp))).mono ?_ fun _ _ _ => trivial
    rintro _ s' ⟨hv', hr, hi', hp'⟩
    exact ⟨hv', hev.step hr hne, hi', hp'⟩
  · intro _ l hl
    cases h.2.1.left l hl

theorem ends_replaceNode_rewords (hs : s.Settled) (hi : Interned s) (hplain : s.WrapsPlain) :
    Ends (replaceNode old new) s (fun _ s' => s.Rewords (Content.redirect old new) old s' ∧
      (old ≠ new → ∀ l, s'.core.held l ≠ some old)) fun _ _ => True := by
  have hsize : s.SettledIn s.layout s.values.size :=
    Store.SettledWith.bounded ⟨hs, rfl⟩ (Nat.le_refl _)
  unfold replaceNode
  rw [ends_bind, ends_get]
  exact ends_replaceNodeStep_rewords (mergesWrappers_replaceWithin _) (movesUses_replaceWithin _) hs
    hi hplain (Nat.le_trans hsize.wrappers (Nat.le_add_right _ 2))

end Edit

namespace Store

variable {s s' : Store} {old new n : NodeId} {d : Node}

theorem Rewords.replaced (h : s.Rewords (Content.redirect old new) old s')
    (hfree : old ≠ new → ∀ l, s'.core.held l ≠ some old) (hd : s.metadata.nodes.get? n = some d) :
    ∃ d', s'.metadata.nodes.get? n = some d' ∧ d'.content = d.content.redirect old new ∧
      (d'.storage = d.storage ∨ d.storage = .uniqued ∧ d'.storage = .distinct ∧
        some old ∈ d.content.operands ∧ ∃ m dm, m ≠ n ∧ s'.metadata.nodes.get? m = some dm ∧
          dm.storage = .uniqued ∧ dm.content = d'.content) := by
  have hredirect {m : NodeId} {dm : Node} (hdm : s'.metadata.nodes.get? m = some dm) :
      dm.content.redirect old new = dm.content := by
    by_cases hne : old = new
    · exact hne ▸ Content.redirect_self
    · refine Content.redirect_of_not_mem fun hmem => ?_
      obtain ⟨i, hi⟩ := List.mem_iff_getElem?.1 hmem
      refine hfree hne (.operand m i) ?_
      rw [held_operand s'.core hdm, hi]
      rfl
  obtain ⟨d', hd', hc, hk⟩ := h n d hd
  have hcontent : d'.content = d.content.redirect old new := (hredirect hd').symm.trans hc
  refine ⟨d', hd', hcontent, hk.imp_right ?_⟩
  rintro ⟨hu, hk, hold, m, dm, hdm, hum, hcm⟩
  refine ⟨hu, hk, hold, m, dm, fun hmn => ?_, hdm, hum, ?_⟩
  · subst hmn
    obtain rfl := Option.some.inj (hd'.symm.trans hdm)
    cases hk.symm.trans hum
  · exact (hredirect hdm).symm.trans (hcm.trans hcontent.symm)

/-- What replacing one node by another makes of the nodes. Every tuple has its former operands with
the new node in the place of the old one. Only a uniqued tuple that held the old node may change its
storage: it may become distinct, and then another tuple is uniqued with the same operands. -/
structure Rewrites (s s' : Store) (old new : NodeId) : Prop where
  content : ∀ {n d}, Query.node n s = .ok d →
    ∃ d', Query.node n s' = .ok d' ∧ d'.content = d.content.redirect old new
  length : ∀ {n ops}, Query.nodeOperands n s = .ok ops →
    ∃ ops', Query.nodeOperands n s' = .ok ops' ∧ ops'.length = ops.length
  kept : ∀ {n d}, Query.node n s = .ok d → d.storage ≠ .uniqued ∨ some old ∉ d.content.operands →
    Query.storage n s' = .ok d.storage
  uniqued : ∀ {n}, Query.storage n s = .ok .uniqued →
    Query.storage n s' = .ok .uniqued ∨ Query.storage n s' = .ok .distinct
  twin : ∀ {n}, Query.storage n s = .ok .uniqued → Query.storage n s' = .ok .distinct →
    ∃ m ops, m ≠ n ∧ Query.nodeKind m s' = .ok .tuple ∧ Query.storage m s' = .ok .uniqued ∧
      Query.nodeOperands m s' = .ok ops ∧ Query.nodeOperands n s' = .ok ops

theorem Rewords.rewrites (h : s.Rewords (Content.redirect old new) old s')
    (hfree : old ≠ new → ∀ l, s'.core.held l ≠ some old) : s.Rewrites s' old new where
  content hd := by
    obtain ⟨d', hd', hc, -⟩ := h.replaced hfree (Query.node_ok.1 hd)
    exact ⟨d', Query.node_ok.2 hd', hc⟩
  length hops := by
    obtain ⟨d, hd, rfl⟩ := Query.nodeOperands_ok.1 hops
    obtain ⟨d', hd', hc, -⟩ := h.replaced hfree hd
    refine ⟨_, Query.nodeOperands_ok.2 ⟨d', hd', rfl⟩, ?_⟩
    rw [hc, Content.operands_redirect, List.length_map]
  kept hd hk := by
    obtain ⟨d', hd', -, heq | ⟨hu, -, hold, -⟩⟩ := h.replaced hfree (Query.node_ok.1 hd)
    · exact Query.storage_ok.2 ⟨d', hd', heq⟩
    · exact (hk.elim (fun hne => hne hu) fun hnot => hnot hold).elim
  uniqued hk := by
    obtain ⟨d, hd, hu⟩ := Query.storage_ok.1 hk
    obtain ⟨d', hd', -, heq | ⟨-, hdistinct, -⟩⟩ := h.replaced hfree hd
    · exact .inl (Query.storage_ok.2 ⟨d', hd', heq.trans hu⟩)
    · exact .inr (Query.storage_ok.2 ⟨d', hd', hdistinct⟩)
  twin {n} hk hk' := by
    obtain ⟨d, hd, hu⟩ := Query.storage_ok.1 hk
    obtain ⟨d', hd', hdistinct⟩ := Query.storage_ok.1 hk'
    obtain ⟨_, hd'', hc, hstorage⟩ := h.replaced hfree hd
    obtain rfl := Option.some.inj (hd'.symm.trans hd'')
    obtain heq | ⟨-, -, hold, m, dm, hmn, hdm, hum, hcm⟩ := hstorage
    · cases hdistinct.symm.trans (heq.trans hu)
    · refine ⟨m, d'.content.operands, hmn, Query.nodeKind_ok.2 ⟨dm, hdm, ?_⟩,
        Query.storage_ok.2 ⟨dm, hdm, hum⟩, Query.nodeOperands_ok.2 ⟨dm, hdm, by rw [hcm]⟩,
        Query.nodeOperands_ok.2 ⟨d', hd', rfl⟩⟩
      -- What holds a node is a tuple.
      rw [hcm, hc, Content.kind_redirect]
      cases hcd : d.content with
      | tuple => rfl
      | _ =>
        rw [hcd] at hold
        cases hold

end Store

namespace Command

open Edit

/-- Whatever commands have been run, if no node wraps a value that wraps a node, then replacing a
node leaves all tuples in place. Those that held the node have been rewritten, and of those that
have become equal one is uniqued. -/
theorem rewrites_afterAll (hash : String → UInt64) (config : Config) (cs : List Command)
    {old new : NodeId} {s' : Store} (hplain : (afterAll { hash, config } cs).wrapsPlainly = true)
    (hrun : Edit.replaceNode old new (afterAll { hash, config } cs) = .ok () s') :
    (afterAll { hash, config } cs).Rewrites s' old new := by
  have hs := coherent_afterAll hash config cs
  obtain ⟨hrewords, hfree⟩ := (ends_replaceNode_rewords hs.settled hs.wrapping.toInterned
    (Store.wrapsPlainly_iff.1 hplain)).of_ok hrun
  exact hrewords.rewrites hfree

/-- The first tuple holds a temporary node twice. On the way it comes to equal the second one, which
then comes to equal the third. -/
def collidingTuples : List Command :=
  [.temporaryTuple [none], .stringNode "x", .tuple [some ⟨0⟩, some ⟨0⟩], .tuple [some ⟨1⟩, some ⟨0⟩],
    .tuple [some ⟨1⟩, some ⟨1⟩]]

theorem rewrites_collidingTuples :
    (afterAll { config := {} } collidingTuples).wrapsPlainly = true ∧
      ∃ s', Edit.replaceNode ⟨0⟩ ⟨1⟩ (afterAll { config := {} } collidingTuples) = .ok () s' ∧
        (afterAll { config := {} } collidingTuples).Rewrites s' ⟨0⟩ ⟨1⟩ := by
  have hplain : (afterAll { config := {} } collidingTuples).wrapsPlainly = true := by
    decide +kernel
  have hanswers : Ends (Edit.replaceNode ⟨0⟩ ⟨1⟩) (afterAll { config := {} } collidingTuples)
      (fun _ _ => True) fun _ _ => False := by
    decide +kernel
  obtain ⟨_, s', hrun, -⟩ := hanswers.exists_ok
  exact ⟨hplain, s', hrun, rewrites_afterAll nameHash {} collidingTuples hplain hrun⟩

/-- Both tuples that held the temporary node are distinct in the end. -/
example : [⟨2⟩, ⟨3⟩, ⟨4⟩].map (fun n =>
      Query.storage n (afterAll { config := {} } (collidingTuples ++ [.replaceNode ⟨0⟩ ⟨1⟩]))) =
    [.ok .distinct, .ok .distinct, .ok .uniqued] := by
  decide +kernel

end Command

end ShaderIR
