import ShaderIR.Proofs.ReplacedUses

/-! Where the values that a merge destroys have gone. Every slot that held one of them holds another
value in its place. A wrapper is destroyed only when the value that its node wraps has been
replaced, and what is in its place then wraps the node of what is in the place of that value. -/

namespace ShaderIR

/-- What decides which values merge: of which kinds the live values are, what their slots hold, and
which nodes and values wrap each other. -/
structure Wiring where
  kind : ValueId → Option ValueKind
  targets : ValueId → List (Option ValueId)
  nodeOf : Std.ExtTreeMap ValueId NodeId
  wrapperOf : Std.ExtTreeMap NodeId ValueId

def Store.wiring (s : Store) : Wiring where
  kind v := (s.values.get? v).map Value.kind
  targets := s.uses.targets
  nodeOf := s.metadata.nodeOf
  wrapperOf := s.metadata.wrapperOf

namespace Wiring

/-- One value is the wrapper of the node that wraps another. -/
def Encloses (c : Wiring) (outer inner : ValueId) : Prop :=
  ∃ n : NodeId, c.nodeOf[inner]? = some n ∧ c.wrapperOf[n]? = some outer

/-- A value encloses one of some values, or one that does so in turn. All in between are lost. -/
inductive Trails (c : Wiring) (gone lost : ValueId → Prop) : ValueId → Prop
  | first {y x : ValueId} : c.Encloses y x → gone x → Trails c gone lost y
  | next {y x : ValueId} : c.Encloses y x → lost x → Trails c gone lost x → Trails c gone lost y

def IsEntered (c : Wiring) (w : ValueId) : Prop := ∃ n : NodeId, c.wrapperOf[n]? = some w

def Unused (c : Wiring) (v : ValueId) : Prop := ∀ u, some v ∉ c.targets u

def Injective (c : Wiring) : Prop :=
  ∀ {v v' : ValueId} {n : NodeId}, c.nodeOf[v]? = some n → c.nodeOf[v']? = some n → v = v'

/-- Two values of which one may take the place of the other, which is no wrapper and in no slot. -/
structure Replaceable (c : Wiring) (old new : ValueId) : Prop where
  ne : old ≠ new
  kind : ∀ {k}, c.kind old = some k → c.kind new = some k
  unused : c.Unused old
  entered : ¬ c.IsEntered old

/-- Values have been replaced, and `f` leads from each value to the one that is in its place. The
values that are known to be gone need not be dead yet; all others that have been replaced are dead
and have trailed those. One value encloses another exactly if this follows from what was in both
their places. -/
structure Absorbs (c c' : Wiring) (gone : ValueId → Prop) (f : ValueId → ValueId) : Prop where
  survives : ∀ {v k}, c'.kind v = some k → c.kind v = some k ∧ (¬ gone v → f v = v)
  lands : ∀ {v k}, c.kind v = some k → c'.kind (f v) = some k
  targets : ∀ {u k}, c'.kind u = some k → c'.targets u = (c.targets u).map (Option.map f)
  encloses : ∀ {x y}, c.Encloses y x → c'.Encloses (f y) (f x)
  enclosed : ∀ {x y}, c'.Encloses y x → ∃ z, c.Encloses y z ∧ f z = x
  trails : ∀ {y}, ¬ gone y → f y ≠ y → c.Trails gone (c'.kind · = none) y

/-- One value has been replaced by another but for its death, and wrappers have been merged. No
value that is not entered as a wrapper gets one, but for the two. -/
structure Merges (c c' : Wiring) (old new : ValueId) (f : ValueId → ValueId) : Prop
    extends c.Absorbs c' (· = old) f where
  same : f old = f new
  entered : ∀ {v}, v ≠ old → f v ≠ v → c.IsEntered (f v)
  idle : ∀ {v n}, ¬ c.IsEntered v → v ≠ old → v ≠ new → c.nodeOf[v]? = some n →
    c'.nodeOf[v]? = some n ∧ (c.wrapperOf[n]? = none → c'.wrapperOf[n]? = none)

def drop (c : Wiring) (v : ValueId) : Wiring :=
  { c with kind := Function.update c.kind v none, targets := Function.update c.targets v [] }

def lose (c : Wiring) (v : ValueId) : Wiring := { c.drop v with nodeOf := c.nodeOf.erase v }

def unenter (c : Wiring) (n : NodeId) : Wiring := { c with wrapperOf := c.wrapperOf.erase n }

def enter (c : Wiring) (n : NodeId) (w : ValueId) : Wiring :=
  { c with wrapperOf := c.wrapperOf.insert n w }

/-- The wrapper of a node, if it has one, has been pointed at another node, or else merged with the
wrapper of that node. -/
inductive Rewraps (c : Wiring) (n m : NodeId) : Wiring → Prop
  | unwrapped : c.wrapperOf[n]? = none → Rewraps c n m c
  | repointed (w : ValueId) : c.wrapperOf[n]? = some w → (c.unenter n).wrapperOf[m]? = none →
    Rewraps c n m ((c.unenter n).enter m w)
  | merged (w e : ValueId) (q : Wiring) (f : ValueId → ValueId) : c.wrapperOf[n]? = some w →
    ¬ (c.unenter n).IsEntered w → (c.unenter n).wrapperOf[m]? = some e →
    (c.unenter n).Merges q w e f → Rewraps c n m (q.drop w)

variable {c c' c'' : Wiring} {gone gone' lost lost' : ValueId → Prop} {f g : ValueId → ValueId}
variable {old new v w x y : ValueId} {k : ValueKind} {n m : NodeId}

theorem kind_drop : (c.drop w).kind v = some k ↔ v ≠ w ∧ c.kind v = some k := by
  by_cases hv : v = w
  · simp [drop, hv]
  · simp [drop, hv]

theorem kind_drop_self : (c.drop w).kind w = none := Function.update_self ..

theorem targets_drop (hu : v ≠ w) : (c.drop w).targets v = c.targets v :=
  Function.update_of_ne hu ..

theorem lose_eq_drop (h : c.nodeOf[v]? = none) : c.lose v = c.drop v := by
  have hnode : c.nodeOf.erase v = c.nodeOf := by
    refine Std.ExtTreeMap.ext_getElem? fun w => ?_
    rw [getElem?_erase_eq_ite]
    split
    next hvw => exact hvw ▸ h.symm
    next => rfl
  exact congrArg (Wiring.mk _ _ · _) hnode

theorem Encloses.isEntered (h : c.Encloses y x) : c.IsEntered y := by
  obtain ⟨n, -, hn⟩ := h
  exact ⟨n, hn⟩

theorem Trails.encloses (h : c.Trails gone lost y) : ∃ x, c.Encloses y x := by
  cases h with
  | first hy _ => exact ⟨_, hy⟩
  | next hy _ _ => exact ⟨_, hy⟩

theorem Trails.mono (h : c.Trails gone lost y) (hc : ∀ {x y}, c.Encloses y x → c'.Encloses y x)
    (hgone : ∀ v, gone v → gone' v) (hlost : ∀ v, lost v → lost' v) : c'.Trails gone' lost' y := by
  induction h with
  | first hy hx => exact .first (hc hy) (hgone _ hx)
  | next hy hx _ ih => exact .next (hc hy) (hlost _ hx) ih

namespace Absorbs

theorem refl (c : Wiring) : c.Absorbs c (fun _ => False) id where
  survives h := ⟨h, fun _ => rfl⟩
  lands h := h
  targets _ := by rw [Option.map_id, List.map_id]
  encloses h := h
  enclosed {x _} h := ⟨x, h, rfl⟩
  trails _ h := absurd rfl h

theorem dead_of_ne (h : c.Absorbs c' gone f) (hg : ¬ gone v) (hv : f v ≠ v) :
    c'.kind v = none := by
  rw [Option.eq_none_iff_forall_ne_some]
  exact fun k hk => hv ((h.survives hk).2 hg)

theorem dead (h : c.Absorbs c' gone f) (hv : c.kind v = none) : c'.kind v = none := by
  rw [Option.eq_none_iff_forall_ne_some] at hv ⊢
  exact fun k hk => hv k (h.survives hk).1

theorem trans (h : c.Absorbs c' gone f) (h' : c'.Absorbs c'' gone' g) :
    c.Absorbs c'' (fun v => gone v ∨ gone' v) (g ∘ f) where
  survives hv := by
    obtain ⟨hv', hg⟩ := h'.survives hv
    obtain ⟨hv'', hf⟩ := h.survives hv'
    refine ⟨hv'', fun hnot => ?_⟩
    obtain ⟨hnot, hnot'⟩ := not_or.1 hnot
    rw [Function.comp_apply, hf hnot, hg hnot']
  lands hv := h'.lands (h.lands hv)
  targets hu := by
    rw [h'.targets hu, h.targets (h'.survives hu).1, List.map_map, Option.map_comp_map]
  encloses he := h'.encloses (h.encloses he)
  enclosed he := by
    obtain ⟨z, hz, rfl⟩ := h'.enclosed he
    obtain ⟨z', hz', rfl⟩ := h.enclosed hz
    exact ⟨z', hz', rfl⟩
  trails {y} hnot hy := by
    let T := c.Trails (fun v => gone v ∨ gone' v) (c''.kind · = none)
    have hlost {v : ValueId} (hv : c'.kind v = none) : c''.kind v = none := h'.dead hv
    have hbefore {z : ValueId} (hz : c.Trails gone (c'.kind · = none) z) : T z :=
      hz.mono id (fun _ => .inl) fun _ => hlost
    -- What a value encloses now is in the place of what it enclosed before.
    have hstep {y x : ValueId} (hyx : c'.Encloses y x) (hx : gone' x ∨ c''.kind x = none ∧ T x) :
        T y := by
      obtain ⟨z, hz, hzx⟩ := h.enclosed hyx
      by_cases hgz : gone z
      · exact .first hz (.inl hgz)
      · by_cases hfz : f z = z
        · obtain rfl : z = x := hfz.symm.trans hzx
          exact hx.elim (fun hx => .first hz (.inr hx)) fun hx => .next hz hx.1 hx.2
        · exact .next hz (hlost (h.dead_of_ne hgz hfz)) (hbefore (h.trails hgz hfz))
    have hafter {z : ValueId} (hz : c'.Trails gone' (c''.kind · = none) z) : T z := by
      induction hz with
      | first hyx hx => exact hstep hyx (.inl hx)
      | next hyx hx _ ih => exact hstep hyx (.inr ⟨hx, ih⟩)
    obtain ⟨hnot, hnot'⟩ := not_or.1 hnot
    by_cases hfy : f y = y
    · rw [Function.comp_apply, hfy] at hy
      exact hafter (h'.trails hnot' hy)
    · exact hbefore (h.trails hnot hfy)

end Absorbs

/-- What one value is replaced by. -/
def redirect (old new v : ValueId) : ValueId := if v = old then new else v

theorem redirect_self (old new : ValueId) : redirect old new old = new := if_pos rfl

theorem redirect_of_ne (hv : v ≠ old) : redirect old new v = v := if_neg hv

theorem Unused.map_eq (h : c.Unused old) (hf : ∀ v, v ≠ old → f v = g v) (u : ValueId) :
    (c.targets u).map (Option.map f) = (c.targets u).map (Option.map g) := by
  refine List.map_congr_left fun o ho => ?_
  cases o with
  | none => rfl
  | some v => exact congrArg some (hf v fun hv => h u (hv ▸ ho))

theorem merges_of_encloses (h : c.Replaceable old new) (hkind : c'.kind = c.kind)
    (htargets : c'.targets = c.targets)
    (henc : ∀ x y, c'.Encloses y x ↔ x = new ∧ c.Encloses y old ∨ x ≠ old ∧ c.Encloses y x)
    (hidle : ∀ {v n}, v ≠ old → v ≠ new → c.nodeOf[v]? = some n →
      c'.nodeOf[v]? = some n ∧ (c.wrapperOf[n]? = none → c'.wrapperOf[n]? = none)) :
    c.Merges c' old new (redirect old new) where
  survives hv := ⟨hkind ▸ hv, fun hne => redirect_of_ne hne⟩
  lands {v k} hv := by
    rw [hkind, redirect]
    split
    next hvo => exact h.kind (hvo ▸ hv)
    next => exact hv
  targets {u _} _ := by
    rw [htargets, h.unused.map_eq (f := redirect old new) (g := id) fun _ hv => redirect_of_ne hv,
      Option.map_id, List.map_id]
  encloses {x y} hxy := by
    have hy : y ≠ old := fun hyo => h.entered (hyo ▸ hxy.isEntered)
    rw [henc, redirect_of_ne hy]
    by_cases hx : x = old
    · exact .inl ⟨hx ▸ redirect_self old new, hx ▸ hxy⟩
    · rw [redirect_of_ne hx]
      exact .inr ⟨hx, hxy⟩
  enclosed {x y} hxy := by
    rcases (henc x y).1 hxy with ⟨rfl, hold⟩ | ⟨hx, hxy⟩
    · exact ⟨old, hold, redirect_self old x⟩
    · exact ⟨x, hxy, redirect_of_ne hx⟩
  trails hy hne := absurd (redirect_of_ne hy) hne
  same := by rw [redirect_self, redirect_of_ne (Ne.symm h.ne)]
  entered hv hne := absurd (redirect_of_ne hv) hne
  idle _ hv hv' hn := hidle hv hv' hn

theorem merges_moved (h : c.Replaceable old new) (hold : c.nodeOf[old]? = some n)
    (hnew : c.nodeOf[new]? = none) :
    c.Merges { c with nodeOf := (c.nodeOf.erase old).insert new n } old new (redirect old new) := by
  have hnode (v : ValueId) : ((c.nodeOf.erase old).insert new n)[v]? =
      if new = v then some n else if old = v then none else c.nodeOf[v]? := by
    rw [getElem?_insert_eq_ite, getElem?_erase_eq_ite]
  refine merges_of_encloses h rfl rfl (fun x y => ?_) fun {v p} hvo hvn hp => ⟨?_, id⟩
  · constructor
    · rintro ⟨p, hp, hyp⟩
      have hp : ((c.nodeOf.erase old).insert new n)[x]? = some p := hp
      rw [hnode] at hp
      split at hp
      next hx =>
        obtain rfl := Option.some.inj hp
        exact .inl ⟨hx.symm, n, hold, hyp⟩
      next hx =>
        split at hp
        · cases hp
        next hxo => exact .inr ⟨Ne.symm hxo, p, hp, hyp⟩
    · rintro (⟨rfl, p, hp, hyp⟩ | ⟨hx, p, hp, hyp⟩)
      · obtain rfl := Option.some.inj (hold.symm.trans hp)
        exact ⟨n, (hnode x).trans (if_pos rfl), hyp⟩
      · refine ⟨p, (hnode x).trans ?_, hyp⟩
        rw [if_neg, if_neg (Ne.symm hx)]
        · exact hp
        · rintro rfl
          cases hnew.symm.trans hp
  · exact (hnode v).trans (by rw [if_neg (Ne.symm hvn), if_neg (Ne.symm hvo), hp])

theorem merges_self (h : c.Replaceable old new) (hold : ∀ y, ¬ c.Encloses y old) :
    c.Merges c old new (redirect old new) := by
  refine merges_of_encloses h rfl rfl (fun x y => ?_) fun _ _ hn => ⟨hn, id⟩
  constructor
  · exact fun hxy => .inr ⟨fun hx => hold y (hx ▸ hxy), hxy⟩
  · exact fun hxy => hxy.elim (fun ⟨_, h⟩ => absurd h (hold y)) And.right

namespace Merges

variable (h : c.Merges c' old new f)

include h

theorem ne_old (hold : ¬ c.IsEntered old) (hne : old ≠ new) (v : ValueId) : f v ≠ old := by
  have hother (v : ValueId) (hv : v ≠ old) : f v ≠ old := by
    by_cases hfv : f v = v
    · rwa [hfv]
    · exact fun heq => hold (heq ▸ h.entered hv hfv)
  by_cases hv : v = old
  · rw [hv, h.same]
    exact hother new (Ne.symm hne)
  · exact hother v hv

theorem drop (hold : ¬ c.IsEntered old) (hne : old ≠ new) :
    c.Absorbs (c'.drop old) (· = old) f where
  survives hv := h.survives (kind_drop.1 hv).2
  lands hv := kind_drop.2 ⟨h.ne_old hold hne _, h.lands hv⟩
  targets hu := by
    obtain ⟨hne, hu⟩ := kind_drop.1 hu
    rw [targets_drop hne, h.targets hu]
  encloses := h.encloses
  enclosed := h.enclosed
  trails hy hfy := by
    refine (h.trails hy hfy).mono id (fun _ h => h) fun v hv => ?_
    rw [Option.eq_none_iff_forall_ne_some] at hv ⊢
    exact fun k hk => hv k (kind_drop.1 hk).2

theorem eraseNode (hn : c'.nodeOf[old]? = some n) (hw : c'.wrapperOf[n]? = none) :
    c.Merges { c' with nodeOf := c'.nodeOf.erase old } old new f := by
  have hnode (v : ValueId) : (c'.nodeOf.erase old)[v]? = if old = v then none else c'.nodeOf[v]? :=
    getElem?_erase_eq_ite ..
  have henc (x y : ValueId) :
      Encloses { c' with nodeOf := c'.nodeOf.erase old } y x ↔ c'.Encloses y x := by
    constructor
    · rintro ⟨m, hm, hy⟩
      refine ⟨m, ?_, hy⟩
      have hm : (c'.nodeOf.erase old)[x]? = some m := hm
      rw [hnode] at hm
      split at hm
      · cases hm
      · exact hm
    · rintro ⟨m, hm, hy⟩
      refine ⟨m, (hnode x).trans ((if_neg ?_).trans hm), hy⟩
      rintro rfl
      obtain rfl := Option.some.inj (hn.symm.trans hm)
      cases hw.symm.trans hy
  exact { h with
    encloses := fun hxy => (henc _ _).2 (h.encloses hxy)
    enclosed := fun hxy => h.enclosed ((henc _ _).1 hxy)
    idle := fun {v m} hv hvo hvn hm => by
      obtain ⟨hm', hnone⟩ := h.idle hv hvo hvn hm
      exact ⟨(hnode v).trans ((if_neg (Ne.symm hvo)).trans hm'), hnone⟩ }

end Merges

def moveUses (c : Wiring) (old new : ValueId) : Wiring :=
  { c with targets := fun u => (c.targets u).map (Option.map (redirect old new)) }

theorem unused_moveUses (hne : old ≠ new) : (c.moveUses old new).Unused old := by
  intro u hu
  obtain ⟨o, -, ho⟩ := List.mem_map.1 hu
  obtain ⟨v, -, hv⟩ := Option.map_eq_some_iff.1 ho
  rw [redirect] at hv
  split at hv
  · exact hne hv.symm
  next hvo => exact hvo hv

theorem Merges.of_moveUses (h : (c.moveUses old new).Merges c' old new f) :
    c.Merges c' old new f where
  survives := h.survives
  lands := h.lands
  targets hu := by
    have hf : f ∘ redirect old new = f := by
      funext v
      rw [Function.comp_apply, redirect]
      split
      next hv => rw [hv, h.same]
      next => rfl
    rw [h.targets hu, moveUses, List.map_map, Option.map_comp_map, hf]
  encloses := h.encloses
  enclosed := h.enclosed
  trails hy hfy := (h.trails hy hfy).mono id (fun _ h => h) fun _ h => h
  same := h.same
  entered := h.entered
  idle := h.idle

section Rewraps

theorem wrapperOf_unenter : (c.unenter n).wrapperOf[m]? = if n = m then none else c.wrapperOf[m]? :=
  getElem?_erase_eq_ite ..

theorem wrapperOf_enter : (c.enter n w).wrapperOf[m]? = if n = m then some w else c.wrapperOf[m]? :=
  getElem?_insert_eq_ite ..

theorem encloses_unenter : (c.unenter n).Encloses y x ↔ c.Encloses y x ∧ c.nodeOf[x]? ≠ some n := by
  constructor
  · rintro ⟨m, hm, hw⟩
    rw [wrapperOf_unenter] at hw
    split at hw
    · cases hw
    next hne => exact ⟨⟨m, hm, hw⟩, fun hn => hne (Option.some.inj (hn.symm.trans hm))⟩
  · rintro ⟨⟨m, hm, hw⟩, hn⟩
    refine ⟨m, hm, wrapperOf_unenter.trans ((if_neg ?_).trans hw)⟩
    rintro rfl
    exact hn hm

theorem IsEntered.of_unenter (h : (c.unenter n).IsEntered w) : c.IsEntered w := by
  obtain ⟨m, hm⟩ := h
  rw [wrapperOf_unenter] at hm
  split at hm
  · cases hm
  · exact ⟨m, hm⟩

theorem Trails.of_unenter (h : (c.unenter n).Trails (· = w) lost y) (hw : lost w)
    (htrails : c.Trails gone lost w) : c.Trails gone lost y := by
  induction h with
  | first hy hx => exact .next (encloses_unenter.1 hy).1 (hx ▸ hw) (hx ▸ htrails)
  | next hy hx _ ih => exact .next (encloses_unenter.1 hy).1 hx ih

variable {a b : ValueId} (hinj : c.Injective) (hab : c.Replaceable a b)
variable (ha : c.nodeOf[a]? = some n) (hb : c.nodeOf[b]? = some m)

include hinj hab ha hb

theorem merges_outward (hw : c.wrapperOf[n]? = some w) (hnot : ¬ (c.unenter n).IsEntered w)
    (he : (c.unenter n).wrapperOf[m]? = some x) (h : (c.unenter n).Merges c' w x f) :
    c.Merges (c'.drop w) a b fun v => if v = a then f b else f v := by
  have hwx : w ≠ x := fun hwx => hnot ⟨m, hwx ▸ he⟩
  have hdrop := h.drop hnot hwx
  have hwa : w ≠ a := fun hwa => hab.entered (hwa ▸ ⟨n, hw⟩)
  have htrails : c.Trails (· = a) ((c'.drop w).kind · = none) w := .first ⟨n, ha, hw⟩ rfl
  have hencloses {z y : ValueId} (hz : z ≠ a) (hyz : c.Encloses y z) :
      (c.unenter n).Encloses y z :=
    encloses_unenter.2 ⟨hyz, fun hn => hz (hinj hn ha)⟩
  refine ⟨⟨fun {v k} hv => ?_, fun {v k} hv => ?_, fun {u k} hu => ?_, fun {z y} hyz => ?_,
    fun {z y} hyz => ?_, fun {y} hya hfy => ?_⟩, ?_, fun {v} hva hfv => ?_,
    fun {v p} hv hva hvb hp => ?_⟩
  · have hvw : v ≠ w := (kind_drop.1 hv).1
    obtain ⟨hv, hfv⟩ := hdrop.survives hv
    exact ⟨hv, fun hva => (if_neg hva).trans (hfv hvw)⟩
  · split
    next hva => exact hdrop.lands (hab.kind (hva ▸ hv))
    next => exact hdrop.lands hv
  · rw [hdrop.targets hu]
    exact hab.unused.map_eq (fun v hv => (if_neg hv).symm) u
  · have hya : y ≠ a := fun hya => hab.entered (hya ▸ hyz.isEntered)
    simp only [if_neg hya]
    split
    next hza =>
      obtain ⟨p, hp, hyp⟩ := hza ▸ hyz
      obtain rfl := Option.some.inj (ha.symm.trans hp)
      obtain rfl := Option.some.inj (hw.symm.trans hyp)
      rw [h.same]
      exact hdrop.encloses ⟨m, hb, he⟩
    next hza => exact hdrop.encloses (hencloses hza hyz)
  · obtain ⟨z', hz', rfl⟩ := hdrop.enclosed hyz
    obtain ⟨hz', hne⟩ := encloses_unenter.1 hz'
    have hza : z' ≠ a := fun hza => hne (hza ▸ ha)
    exact ⟨z', hz', if_neg hza⟩
  · rw [if_neg hya] at hfy
    by_cases hyw : y = w
    · exact hyw ▸ htrails
    · exact (hdrop.trails hyw hfy).of_unenter kind_drop_self htrails
  · rw [if_pos rfl, if_neg (Ne.symm hab.ne)]
  · rw [if_neg hva] at hfv ⊢
    by_cases hvw : v = w
    · rw [hvw, h.same]
      by_cases hfx : f x = x
      · exact hfx.symm ▸ IsEntered.of_unenter ⟨m, he⟩
      · exact (h.entered (Ne.symm hwx) hfx).of_unenter
    · exact (h.entered hvw hfv).of_unenter
  · obtain ⟨hp', hnone⟩ := h.idle (fun hv' => hv hv'.of_unenter) (fun hvw => hv (hvw ▸ ⟨n, hw⟩))
      (fun hvx => hv (hvx ▸ IsEntered.of_unenter ⟨m, he⟩)) hp
    refine ⟨hp', fun hnp => hnone ?_⟩
    rw [wrapperOf_unenter]
    split
    · rfl
    · exact hnp

theorem merges_repointed (hw : c.wrapperOf[n]? = some w)
    (hnone : (c.unenter n).wrapperOf[m]? = none) :
    c.Merges ((c.unenter n).enter m w) a b (redirect a b) := by
  have hnm : n ≠ m := fun hnm => hab.ne (hinj ha (hnm ▸ hb))
  rw [wrapperOf_unenter, if_neg hnm] at hnone
  have hwrapper (p : NodeId) : ((c.unenter n).enter m w).wrapperOf[p]? =
      if m = p then some w else if n = p then none else c.wrapperOf[p]? := by
    rw [wrapperOf_enter, wrapperOf_unenter]
  refine merges_of_encloses hab rfl rfl (fun z y => ?_) fun {v p} hva hvb hp => ⟨hp, fun hnp => ?_⟩
  · constructor
    · rintro ⟨p, hp, hyp⟩
      rw [hwrapper] at hyp
      split at hyp
      next hmp => exact .inl ⟨hinj hp (hmp ▸ hb), n, ha, hw.trans hyp⟩
      next hmp =>
        split at hyp
        · cases hyp
        next hnp =>
          exact .inr ⟨fun hza => hnp (Option.some.inj (ha.symm.trans (hza ▸ hp))), p, hp, hyp⟩
    · rintro (⟨rfl, p, hp, hyp⟩ | ⟨hza, p, hp, hyp⟩)
      · obtain rfl := Option.some.inj (ha.symm.trans hp)
        exact ⟨m, hb, (hwrapper m).trans ((if_pos rfl).trans (hw.symm.trans hyp))⟩
      · refine ⟨p, hp, (hwrapper p).trans ?_⟩
        rw [if_neg, if_neg]
        · exact hyp
        · exact fun hnp => hza (hinj hp (hnp ▸ ha))
        · rintro rfl
          cases hnone.symm.trans hyp
  · rw [hwrapper, if_neg, hnp, ite_self]
    rintro rfl
    exact hvb (hinj hp hb)

theorem Rewraps.merges (h : c.Rewraps n m c') :
    (∃ f, c.Merges c' a b f) ∧ c'.nodeOf[a]? = some n ∧ c'.wrapperOf[n]? = none := by
  have hnm : n ≠ m := fun hnm => hab.ne (hinj ha (hnm ▸ hb))
  cases h with
  | unwrapped hnone =>
    refine ⟨⟨_, merges_self hab fun y ⟨p, hp, hyp⟩ => ?_⟩, ha, hnone⟩
    obtain rfl := Option.some.inj (ha.symm.trans hp)
    cases hnone.symm.trans hyp
  | repointed w hw hnone =>
    refine ⟨⟨_, merges_repointed hinj hab ha hb hw hnone⟩, ha, ?_⟩
    rw [wrapperOf_enter, if_neg (Ne.symm hnm), wrapperOf_unenter, if_pos rfl]
  | merged w e q f hw hnot he h =>
    -- The value that is replaced stays idle meanwhile.
    obtain ⟨hna, hnone⟩ := h.idle (v := a) (fun ha => hab.entered ha.of_unenter)
      (fun haw => hab.entered (haw ▸ ⟨n, hw⟩))
      (fun hae => hab.entered (hae ▸ IsEntered.of_unenter ⟨m, he⟩)) ha
    refine ⟨⟨_, merges_outward hinj hab ha hb hw hnot he h⟩, hna, hnone ?_⟩
    rw [wrapperOf_unenter, if_pos rfl]

end Rewraps

end Wiring

end ShaderIR
