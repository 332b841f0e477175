import Mathlib.Data.List.Induction
import ShaderIR.Proofs.CommandCoherence
import ShaderIR.Proofs.UseOrder

/-! Moving uses in order. The uses that a predicate accepts leave the use list of one value and come
to stand in front of the list of another, the last of them first. The predicate may have a state; it
is asked about every use once, before the first of them moves. -/

namespace ShaderIR

section Sifting

variable {σ : Type}

/-- The uses that a predicate accepts and those that it rejects. It is asked about one use after the
other, and each answer may change its state. -/
def sift (ask : σ → Use → Bool × σ) : σ → List Use → List Use × List Use
  | _, [] => ([], [])
  | st, u :: us =>
    let rest := sift ask (ask st u).2 us
    if (ask st u).1 then (u :: rest.1, rest.2) else (rest.1, u :: rest.2)

/-- The state of a predicate that has been asked about uses, each of them once and in order. -/
def stateAfter (ask : σ → Use → Bool × σ) (st : σ) (us : List Use) : σ :=
  us.foldl (fun st u => (ask st u).2) st

variable (ask : σ → Use → Bool × σ) (st : σ) (us : List Use)

theorem sift_fst_subset : (sift ask st us).1 ⊆ us := by
  induction us generalizing st with
  | nil => exact List.Subset.refl []
  | cons u us ih =>
    have hrest := ih (ask st u).2
    rw [sift]
    split
    · exact List.cons_subset_cons u hrest
    · exact List.subset_cons_of_subset u hrest

theorem sift_snd_eq_filter (h : us.Nodup) :
    (sift ask st us).2 = us.filter (· ∉ (sift ask st us).1) := by
  induction us generalizing st with
  | nil => rfl
  | cons u us ih =>
    obtain ⟨hu, hus⟩ := List.nodup_cons.1 h
    have hrest := ih (ask st u).2 hus
    have haccepted : u ∉ (sift ask (ask st u).2 us).1 := fun hm => hu (sift_fst_subset _ _ _ hm)
    rw [sift]
    split
    · rw [List.filter_cons_of_neg (by simp), hrest]
      apply List.filter_congr
      intro v hv
      have hne : v ≠ u := fun hvu => hu (hvu ▸ hv)
      simp [hne]
    · rw [List.filter_cons_of_pos (by simpa using haccepted), hrest]

end Sifting

namespace UseMap

variable {L : UseMap} {xs : List Use} {new : ValueId}

def redirectAll (L : UseMap) (xs : List Use) (new : ValueId) : UseMap :=
  xs.foldl (fun L x => L.redirect x (some new)) L

theorem redirectAll_concat (L : UseMap) (xs : List Use) (x : Use) (new : ValueId) :
    L.redirectAll (xs ++ [x]) new = (L.redirectAll xs new).redirect x (some new) :=
  List.foldl_concat ..

theorem redirectAll_eq (hL : ∀ v, (L v).Nodup) (hxs : xs.Nodup) (hnew : ∀ x ∈ xs, x ∉ L new)
    (v : ValueId) : L.redirectAll xs new v =
      if v = new then xs.reverse ++ L new else (L v).filter (· ∉ xs) := by
  induction xs using List.reverseRecOn generalizing v with
  | nil =>
    have hempty : (L v).filter (· ∉ ([] : List Use)) = L v := by simp
    rw [hempty]
    split
    next hv => rw [hv]; rfl
    next => rfl
  | append_singleton xs x ih =>
    rw [List.nodup_append] at hxs
    obtain ⟨hxs, -, hdisjoint⟩ := hxs
    have hx : x ∉ xs := fun hx => hdisjoint x hx x (List.mem_singleton_self x) rfl
    have hall := ih hxs fun y hy => hnew y (List.mem_append_left _ hy)
    have habsent : x ∉ L.redirectAll xs new new := by
      rw [hall, if_pos rfl, List.mem_append, List.mem_reverse, not_or]
      exact ⟨hx, hnew x (List.mem_append_right _ (List.mem_singleton_self x))⟩
    rw [redirectAll_concat, redirect, if_neg habsent, Function.update_apply]
    split
    · rw [hall, if_pos rfl, List.reverse_append]
      rfl
    next hv =>
      rw [delete, hall, if_neg hv, ((hL v).filter _).erase_eq_filter, List.filter_filter]
      apply List.filter_congr
      intro y _
      grind

end UseMap

namespace Query

variable {s s' : Store} {v : ValueId} {α β : Type}

theorem bind_congr_of_eq {q : Query α} {f : α → Query β} (hq : q s' = q s)
    (hf : ∀ a, q s = .ok a → f a s' = f a s) : (q >>= f) s' = (q >>= f) s := by
  change (q s').bind (fun a => f a s') = (q s).bind fun a => f a s
  rw [hq]
  cases h : q s with
  | error => rfl
  | ok a => exact hf a h

theorem uses_congr (hv : s'.values = s.values) (hu : s'.uses.useMap v = s.uses.useMap v) :
    uses v s' = uses v s := by
  have hanswer (p : Store) : uses v p = (value v p).bind fun _ => .ok (p.uses.useMap v) := by
    change ((value v p).bind _).bind _ = _
    cases value v p <;> rfl
  rw [hanswer, hanswer, hu, value, value, hv]

theorem operandEdge_congr (hv : s'.values = s.values)
    (hs : s'.uses.slotsOf v = s.uses.slotsOf v) (i : Nat) :
    operandEdge v i s' = operandEdge v i s := by
  apply bind_congr_of_eq
  · rw [value, value, hv]
  · intro _ _
    simp only [bind, ReaderT.bind, Except.bind, read, readThe, MonadReaderOf.read, ReaderT.read,
      pure, Except.pure, hs]
    cases (s.uses.slotsOf v)[i]? <;> rfl

theorem operand_congr (hv : s'.values = s.values) (hs : s'.uses.slotsOf v = s.uses.slotsOf v)
    {i : Nat} (ht : ∀ e, (s.uses.slotsOf v)[i]? = some e →
      (s'.uses.edge e).target = (s.uses.edge e).target) : operand v i s' = operand v i s := by
  apply bind_congr_of_eq (operandEdge_congr hv hs i)
  intro e he
  exact congrArg Except.ok (ht e (operandEdge_ok.1 he).2)

end Query

/-- Some uses have moved from one value to another: they stand in front of the list of the new one
in reverse order, and the uses that the old one keeps are in the order that they had. Nothing else
has changed. -/
structure Store.Relinks (s s' : Store) (old new : ValueId) (moved kept : List Use) : Prop where
  rest : ∃ g, s' = { s with uses := g }
  gained : ∀ us, Query.uses new s = .ok us → Query.uses new s' = .ok (moved.reverse ++ us)
  kept : Query.uses old s' = .ok kept
  others : ∀ v, v ≠ old → v ≠ new → Query.uses v s' = Query.uses v s
  filled : ∀ u ∈ moved, Query.operand u.user u.slot s' = .ok (some new)
  unmoved : ∀ u, u ∉ moved → Query.operand u.user u.slot s' = Query.operand u.user u.slot s

namespace Edit

section Picking

variable {α σ : Type} (ask : σ → Use → Bool × σ) (st : σ) (f : α → Use) (xs : List α)

theorem pick_cons (p : σ → α → Bool × σ) (x : α) : (pick p st (x :: xs)).1 =
    if (p st x).1 then x :: (pick p (p st x).2 xs).1 else (pick p (p st x).2 xs).1 := rfl

theorem map_pick :
    (pick (fun st x => ask st (f x)) st xs).1.map f = (sift ask st (xs.map f)).1 := by
  induction xs generalizing st with
  | nil => rfl
  | cons x xs ih =>
    rw [pick_cons, List.map_cons, sift, ← ih]
    split <;> rfl

theorem pick_snd : (pick (fun st x => ask st (f x)) st xs).2 = stateAfter ask st (xs.map f) := by
  induction xs generalizing st with
  | nil => rfl
  | cons x xs ih => exact ih (ask st (f x)).2

theorem pick_of_plain (p : α → Bool) :
    (pick (fun (_ : Unit) x => (p x, ())) () xs).1 = xs.filter p := by
  induction xs with
  | nil => rfl
  | cons x xs ih =>
    rw [pick_cons, ih, List.filter_cons]

variable {xs}

/-- No use comes up twice, so a use that is accepted is known by itself. -/
theorem pick_eq_filter (h : (xs.map f).Nodup) : (pick (fun st x => ask st (f x)) st xs).1 =
    xs.filter fun x => f x ∈ (sift ask st (xs.map f)).1 := by
  induction xs generalizing st with
  | nil => rfl
  | cons x xs ih =>
    rw [List.map_cons] at h ⊢
    obtain ⟨hx, hxs⟩ := List.nodup_cons.1 h
    have hrest := ih (ask st (f x)).2 hxs
    have hlater : f x ∉ (sift ask (ask st (f x)).2 (xs.map f)).1 :=
      fun hm => hx (sift_fst_subset _ _ _ hm)
    rw [pick_cons, sift, hrest]
    split
    · rw [List.filter_cons_of_pos (by simp)]
      refine congrArg (x :: ·) (List.filter_congr fun y hy => ?_)
      have hne : f y ≠ f x := fun hyx => hx (hyx ▸ List.mem_map_of_mem hy)
      simp [hne]
    · rw [List.filter_cons_of_neg (by simpa using hlater)]

end Picking

open Store

variable {s s' : Store} {r : Location → Option NodeId} {old new : ValueId} {dold dnew : Value}
variable {e : EdgeId} {es rest : List EdgeId} {noted : List (ValueId × ConstantKey)}

theorem use_edgesMoved (h : s.EdgesMoved s' r old new es rest) (hs : s.core.Sound r) {v : ValueId}
    (ht : (s.uses.edge e).target = some v) : s'.uses.use e = s.uses.use e := by
  have hg : s.uses.Sound s.core.IsLive := hs.graph
  have hg' : s'.uses.Sound s'.core.IsLive := h.sound.graph
  have hslot := (hg.slot_of_target ht).2
  rw [← h.slots] at hslot
  obtain ⟨-, huser, hslot⟩ := hg'.slot hslot
  exact congrArg₂ Use.mk huser hslot

theorem ends_noteBlockAddress_of_not (h : ¬ s.isBlockAddress (s.uses.edge e).user) :
    Ends (noteBlockAddress e noted) s (fun noted' s' => noted' = noted ∧ s' = s)
      fun _ _ => False := by
  have hif : ¬ (s.isBlockAddress (s.uses.edge e).user &&
      !noted.any fun c => c.1 = (s.uses.edge e).user) = true := by
    simp [h]
  unfold noteBlockAddress
  rw [ends_bind, ends_get]
  dsimp only
  rw [ends_bind, ends_get, if_neg hif]
  exact ⟨rfl, rfl⟩

theorem ends_moveEdge_uses (hs : s.core.Sound r) (ht : (s.uses.edge e).target = some old)
    (hne : old ≠ new) : Ends (moveEdge new e) s
      (fun _ s' => s'.uses.useMap = s.uses.useMap.redirect (s.uses.use e) (some new))
      fun _ _ => True := by
  have hg : s.uses.Sound s.core.IsLive := hs.graph
  have hslot := (hg.slot_of_target ht).2
  have hother : (s.uses.edge e).target ≠ some new := by
    rw [ht]
    exact fun heq => hne (Option.some.inj heq)
  unfold moveEdge unlink link
  rw [ends_bind, ends_modify]
  refine ends_bind.2 (ends_lift.2 ⟨fun _ _ => ?_, fun _ _ => trivial⟩)
  exact hg.useMap_redirect hslot hother

theorem ends_moveEdges_uses (nested : ValueId → ValueId → Edit Unit) (hs : s.core.Sound r)
    (hes : es.Nodup) (ht : ∀ e ∈ es, (s.uses.edge e).target = some old) (hne : old ≠ new)
    (hold : s.values.get? old = some dold) (hnew : s.values.get? new = some dnew)
    (hty : dnew.ty = dold.ty) (hplain : ∀ e ∈ es, ¬ s.isBlockAddress (s.uses.edge e).user) :
    Ends (moveEdges nested new es) s (fun _ s' => s.EdgesMoved s' r old new es [] ∧
      s'.uses.useMap = s.uses.useMap.redirectAll (es.map s.uses.use) new) fun _ _ => False := by
  -- The edges that have moved so far are those that are no longer to come.
  let I (rest : List EdgeId) (noted : List (ValueId × ConstantKey)) (p : Store) : Prop :=
    noted = [] ∧ s.EdgesMoved p r old new es rest ∧ ∃ done, es = done ++ rest ∧
      p.uses.useMap = s.uses.useMap.redirectAll (done.map s.uses.use) new
  have hstart : I es [] s := ⟨rfl, edgesMoved_refl hs hes ht, [], rfl, rfl⟩
  have hgather : Ends (gather new es) s (fun noted p => I [] noted p) fun _ _ => False := by
    apply ends_foldlM I _ es [] s hstart
    rintro e rest _ p ⟨rfl, hp, done, hes, hmap⟩
    have he : e ∈ es := hp.sub (List.mem_cons_self ..)
    have htarget : (p.uses.edge e).target = some old := hp.waiting e (List.mem_cons_self ..)
    have huser : ¬ p.isBlockAddress (p.uses.edge e).user := by
      rw [hp.user, isBlockAddress, hp.values]
      exact hplain e he
    have huse : p.uses.use e = s.uses.use e := use_edgesMoved hp hs (ht e he)
    apply Ends.bind ((ends_noteBlockAddress_of_not huser).weaken fun _ _ h => h)
    rintro _ _ ⟨rfl, rfl⟩
    have hmove := (ends_moveEdge hp hne hold hnew hty).and (ends_moveEdge_uses hp.sound htarget hne)
    apply Ends.bind (hmove.mono (fun _ _ h => h) fun _ _ h => h.1)
    rintro _ q ⟨hq, hmap'⟩
    refine ⟨rfl, hq, done ++ [e], by simp [hes], ?_⟩
    rw [hmap', hmap, huse, List.map_append, List.map_singleton, UseMap.redirectAll_concat]
  rw [moveEdges_eq]
  apply Ends.bind hgather
  rintro _ p ⟨rfl, hp, done, hes, hmap⟩
  obtain rfl : es = done := by rw [hes, List.append_nil]
  exact ⟨hp, hmap⟩

theorem getElem?_targets_edgesMoved (h : s.EdgesMoved s' r old new es []) (hs : s.core.Sound r)
    (ht : ∀ e ∈ es, (s.uses.edge e).target = some old) (v : ValueId) (i : Nat) :
    (s'.uses.targets v)[i]? =
      if ⟨v, i⟩ ∈ es.map s.uses.use then some (some new) else (s.uses.targets v)[i]? := by
  have hg : s.uses.Sound s.core.IsLive := hs.graph
  rw [UseGraph.getElem?_targets, UseGraph.getElem?_targets, h.slots]
  split
  next hx =>
    obtain ⟨e, he, huse⟩ := List.mem_map.1 hx
    obtain ⟨huser, hindex⟩ := Use.mk.inj huse
    have hbehind : (s.uses.slotsOf v)[i]? = some e := by
      rw [← huser, ← hindex]
      exact (hg.slot_of_target (ht e he)).2
    rw [hbehind, Option.map_some, h.target, if_pos ⟨he, List.not_mem_nil⟩]
  next hx =>
    refine Option.map_congr fun e he => ?_
    rw [h.target, if_neg]
    rintro ⟨hin, -⟩
    obtain ⟨-, huser, hindex⟩ := hg.slot he
    exact hx (List.mem_map.2 ⟨e, hin, congrArg₂ Use.mk huser hindex⟩)

theorem relinks_of_edgesMoved (hs : s.core.Sound r) (hes : es.Nodup)
    (ht : ∀ e ∈ es, (s.uses.edge e).target = some old) (hne : old ≠ new)
    (hold : s.values.get? old = some dold) (hnew : s.values.get? new = some dnew)
    (h : s.EdgesMoved s' r old new es [])
    (hmap : s'.uses.useMap = s.uses.useMap.redirectAll (es.map s.uses.use) new) {kept : List Use}
    (hkept : kept = (s.uses.useMap old).filter (· ∉ es.map s.uses.use)) :
    s.Relinks s' old new (es.map s.uses.use) kept := by
  have hg : s.uses.Sound s.core.IsLive := hs.graph
  have hslot (e : EdgeId) (he : e ∈ es) := (hg.slot_of_target (ht e he)).2
  -- The slot behind which an edge stands belongs to the list of no other value.
  have hmem (e : EdgeId) (he : e ∈ es) (v : ValueId) :
      s.uses.use e ∈ s.uses.useMap v ↔ v = old := by
    have hiff := hg.mem_useMap (hslot e he) v
    rwa [ht e he, Option.some.injEq, @eq_comm _ old] at hiff
  have hnodup : (es.map s.uses.use).Nodup := by
    apply hes.map_on
    intro e he x hx heq
    have hslots := hslot x hx
    obtain ⟨huser, hindex⟩ := Use.mk.inj heq
    rw [← huser, ← hindex, hslot e he] at hslots
    exact Option.some.inj hslots
  have habsent (v : ValueId) (hv : v ≠ old) : ∀ x ∈ es.map s.uses.use, x ∉ s.uses.useMap v := by
    intro x hx hxv
    obtain ⟨e, he, rfl⟩ := List.mem_map.1 hx
    exact hv ((hmem e he v).1 hxv)
  have hlists (v : ValueId) : s'.uses.useMap v =
      if v = new then (es.map s.uses.use).reverse ++ s.uses.useMap new
      else (s.uses.useMap v).filter (· ∉ es.map s.uses.use) := by
    rw [hmap]
    exact UseMap.redirectAll_eq (fun v => hg.uses_nodup v) hnodup (habsent new (Ne.symm hne)) v
  have hvalues : s'.values = s.values := h.values
  refine ⟨h.uses, fun us hus => ?_, ?_, fun v hv hv' => ?_, fun x hx => ?_, fun x hx => ?_⟩
  · obtain ⟨-, rfl⟩ := Query.uses_ok.1 hus
    exact Query.uses_ok.2 ⟨⟨dnew, hvalues ▸ hnew⟩, by rw [hlists, if_pos rfl]⟩
  · refine Query.uses_ok.2 ⟨⟨dold, hvalues ▸ hold⟩, ?_⟩
    rw [hlists, if_neg hne, hkept]
  · have hsame : s'.uses.useMap v = s.uses.useMap v := by
      rw [hlists, if_neg hv', List.filter_eq_self]
      intro x hx
      simpa using fun hm => habsent v hv x hm hx
    exact Query.uses_congr hvalues hsame
  · have htarget := (getElem?_targets_edgesMoved h hs ht x.user x.slot).trans (if_pos hx)
    obtain ⟨e, he, rfl⟩ := List.mem_map.1 hx
    obtain ⟨d, hd⟩ := isLive_core.1 (hg.slot_of_target (ht e he)).1
    exact Query.operand_ok.2 ⟨⟨d, hvalues ▸ hd⟩, htarget⟩
  · apply Query.operand_congr hvalues (h.slots _)
    intro e he
    rw [h.target, if_neg]
    rintro ⟨hin, -⟩
    obtain ⟨-, huser, hindex⟩ := hg.slot he
    exact hx (List.mem_map.2 ⟨e, hin, congrArg₂ Use.mk huser hindex⟩)

section Replacing

variable {L : Layout} {σ : Type} (ask : σ → Use → Bool × σ) (st : σ)

theorem ends_replaceUsesIf_sifted {Q : Nat → Store → Prop} {E : Fault → Store → Prop}
    (hne : old ≠ new) (hty : Query.expectSameType old new s = .ok ())
    (hmoves : ∀ es : List EdgeId, es.Sublist (s.uses.useList old) →
      es.map s.uses.use = (sift ask st (s.uses.useMap old)).1 →
      Ends (moveEdges (replaceWithin (nestingBound s)) new es) s (fun _ => Q es.length) E) :
    Ends (replaceUsesIf old new ask st) s (fun answer s' =>
      answer.2 = stateAfter ask st (s.uses.useMap old) ∧ Q answer.1 s') E := by
  obtain ⟨dold, -, hold, -⟩ := Query.expectSameType_ok.1 hty
  have hes := hmoves _ (pick_sublist _ st _) (map_pick ask st s.uses.use (s.uses.useList old))
  unfold replaceUsesIf
  rw [if_neg hne, ends_bind, ends_lift_ok hty, ends_bind,
    ends_lift_ok (Query.useList_ok.2 ⟨⟨dold, hold⟩, rfl⟩), ends_bind, ends_get]
  dsimp only
  rw [ends_bind, ends_get]
  exact Ends.bind hes fun _ _ h => ⟨pick_snd ask st s.uses.use (s.uses.useList old), h⟩

theorem ends_replaceUsesIf_relinks (hs : s.SettledWith L) (hk : s.Keyed) (hne : old ≠ new)
    (hty : Query.expectSameType old new s = .ok ()) :
    let sifted := sift ask st (s.uses.useMap old)
    Ends (replaceUsesIf old new ask st) s (fun answer s' =>
      answer = (sifted.1.length, stateAfter ask st (s.uses.useMap old)) ∧
      ((∀ u ∈ sifted.1, ¬ s.isBlockAddress u.user) → s.Relinks s' old new sifted.1 sifted.2))
      fun _ _ => False := by
  intro sifted
  have hg : s.uses.Sound s.core.IsLive := hs.1.graph
  obtain ⟨dold, dnew, hold, hnew, htypes⟩ := Query.expectSameType_ok.1 hty
  let Q (n : Nat) (s' : Store) : Prop := n = sifted.1.length ∧
    ((∀ u ∈ sifted.1, ¬ s.isBlockAddress u.user) → s.Relinks s' old new sifted.1 sifted.2)
  suffices hmoves : ∀ es : List EdgeId, es.Sublist (s.uses.useList old) →
      es.map s.uses.use = sifted.1 → Ends (moveEdges (replaceWithin (nestingBound s)) new es) s
        (fun _ => Q es.length) fun _ _ => False from
    (ends_replaceUsesIf_sifted ask st hne hty hmoves).weaken fun _ _ h =>
      ⟨Prod.ext h.2.1 h.1, h.2.2⟩
  intro es hsub hmap
  have hes : es.Nodup := (hg.lists.nodup old).sublist hsub
  have ht : ∀ e ∈ es, (s.uses.edge e).target = some old :=
    fun e he => (hg.lists.mem old e).1 (hsub.subset he)
  have hlength : es.length = sifted.1.length := by
    exact (List.length_map s.uses.use).symm.trans (congrArg List.length hmap)
  have hkept : sifted.2 = (s.uses.useMap old).filter (· ∉ sifted.1) :=
    sift_snd_eq_filter ask st _ (hg.uses_nodup old)
  have h : s.SettledIn L (s.values.size + 1) := hs.bounded (Nat.le_succ _)
  have hanswers : Ends (moveEdges (replaceWithin (nestingBound s)) new es) s (fun _ _ => True)
      fun _ _ => False :=
    (ends_moveEdges_keyed h hk hes ht hne hty).weaken fun _ _ _ => trivial
  have hmoves : Ends (moveEdges (replaceWithin (nestingBound s)) new es) s (fun _ s' =>
      (∀ u ∈ sifted.1, ¬ s.isBlockAddress u.user) → s.Relinks s' old new sifted.1 sifted.2)
      fun _ _ => False := by
    by_cases hplain : ∀ u ∈ sifted.1, ¬ s.isBlockAddress u.user
    · have huser : ∀ e ∈ es, ¬ s.isBlockAddress (s.uses.edge e).user := by
        intro e he
        exact hplain (s.uses.use e) (hmap ▸ List.mem_map_of_mem he)
      apply (ends_moveEdges_uses _ hs.1 hes ht hne hold hnew htypes huser).weaken
      rintro _ s' ⟨hs', hredirect⟩ -
      have hrelinks : s.Relinks s' old new (es.map s.uses.use) sifted.2 :=
        relinks_of_edgesMoved hs.1 hes ht hne hold hnew hs' hredirect (by rw [hmap, hkept])
      rwa [hmap] at hrelinks
    · exact hanswers.weaken fun _ _ _ hall => absurd hall hplain
  exact hmoves.weaken fun _ s' hs' => ⟨hlength, hs'⟩

theorem replaceUsesIf_of_accepted (hs : s.Settled) :
    (Prod.fst <$> replaceUsesIf old new ask st) s = (Prod.fst <$> replaceUsesIf old new
      (fun _ u => (decide (u ∈ (sift ask st (s.uses.useMap old)).1), ())) ()) s := by
  have hg : s.uses.Sound s.core.IsLive := hs.graph
  have hpick := pick_eq_filter ask st s.uses.use (hg.uses_nodup old)
  unfold replaceUsesIf
  split
  · rfl
  simp only [map_bind]
  apply lift_congr
  intro _
  apply lift_congr_of_ok
  intro es hes
  obtain ⟨-, rfl⟩ := Query.useList_ok.1 hes
  rw [get_apply, get_apply, get_apply, get_apply, hpick, pick_of_plain]
  rfl

theorem ends_replaceAllUses_relinks (hs : s.Settled) (hne : old ≠ new)
    (hty : Query.expectSameType old new s = .ok ()) (hnode : s.metadata.nodeOf[old]? = none)
    (hplain : ∀ u ∈ s.uses.useMap old, ¬ s.isBlockAddress u.user) :
    Ends (replaceAllUses old new) s (fun _ s' => s.Relinks s' old new (s.uses.useMap old) [])
      fun _ _ => False := by
  have hg : s.uses.Sound s.core.IsLive := hs.graph
  obtain ⟨dold, dnew, hold, hnew, htypes⟩ := Query.expectSameType_ok.1 hty
  have ht : ∀ e ∈ s.uses.useList old, (s.uses.edge e).target = some old :=
    fun e he => (hg.lists.mem old e).1 he
  have huser : ∀ e ∈ s.uses.useList old, ¬ s.isBlockAddress (s.uses.edge e).user :=
    fun e he => hplain (s.uses.use e) (List.mem_map_of_mem he)
  have hmoves := ends_moveEdges_uses (replaceWithin (s.values.size + 1)) hs (hg.lists.nodup old)
    ht hne hold hnew htypes huser
  apply ends_replaceAllUses_of hne (fun _ => hmoves) _ fun _ hty' => hty' hty
  rintro q - ⟨hq, hredirect⟩
  have hrelinks : s.Relinks q old new (s.uses.useMap old) [] :=
    relinks_of_edgesMoved hs (hg.lists.nodup old) ht hne hold hnew hq hredirect
      (List.filter_eq_nil_iff.2 (by simp [UseGraph.useMap])).symm
  have hnode' : q.metadata.nodeOf[old]? = none := by
    obtain ⟨g, rfl⟩ := hq.uses
    exact hnode
  unfold moveValueNode
  rw [ends_bind, ends_get]
  dsimp only
  rw [hnode']
  exact hrelinks

end Replacing

end Edit

namespace Command

open Edit

/-- Replacing some uses of a value in a store that commands leave. A predicate is asked about each
use once, in the order of the use list as it was, which shows in the state that it is left in; how
many uses it accepts is answered, and these move unless a block address is to be interned anew.
Replacing all uses moves all of them if no node follows the value either. -/
theorem replaceUses_afterAll (hash : String → UInt64) (config : Config) (cs : List Command)
    {old new : ValueId} {us : List Use} (hne : old ≠ new)
    (hty : Query.expectSameType old new (afterAll { hash, config } cs) = .ok ())
    (hus : Query.uses old (afterAll { hash, config } cs) = .ok us) :
    let s := afterAll { hash, config } cs
    (∀ {σ : Type} (ask : σ → Use → Bool × σ) (st : σ),
      (Prod.fst <$> Edit.replaceUsesIf old new ask st) s = (Prod.fst <$> Edit.replaceUsesIf old new
        (fun _ u => (decide (u ∈ (sift ask st us).1), ())) ()) s ∧
      ∃ s', Edit.replaceUsesIf old new ask st s =
          .ok ((sift ask st us).1.length, stateAfter ask st us) s' ∧
        ((∀ u ∈ (sift ask st us).1, ¬ s.isBlockAddress u.user) →
          s.Relinks s' old new (sift ask st us).1 (sift ask st us).2)) ∧
    (s.metadata.nodeOf[old]? = none → (∀ u ∈ us, ¬ s.isBlockAddress u.user) →
      ∃ s', Edit.replaceAllUses old new s = .ok () s' ∧ s.Relinks s' old new us []) := by
  intro s
  have hc : Coherent (fun _ => False) s := coherent_afterAll hash config cs
  obtain ⟨-, rfl⟩ := Query.uses_ok.1 hus
  constructor
  · intro σ ask st
    refine ⟨replaceUsesIf_of_accepted ask st hc.settled, ?_⟩
    obtain ⟨_, s', hrun, rfl, hs'⟩ :=
      (ends_replaceUsesIf_relinks ask st ⟨hc.settled, rfl⟩ hc.keyed hne hty).exists_ok
    exact ⟨s', hrun, hs'⟩
  · intro hnode hplain
    obtain ⟨_, s', hrun, hs'⟩ :=
      (ends_replaceAllUses_relinks hc.settled hne hty hnode hplain).exists_ok
    exact ⟨s', hrun, hs'⟩

/-- An instruction uses a constant, and another one uses both in turn. -/
def usedByUser : List Command :=
  [.internType .metadata, .constInt ⟨0⟩ 1, .buildInstruction "neg" ⟨0⟩ [some ⟨0⟩] none .floating,
    .buildInstruction "add" ⟨0⟩ [some ⟨0⟩, some ⟨1⟩, some ⟨0⟩] none .floating]

/-- A predicate that accepts every second use puts the instruction in the place of the constant,
also where the instruction itself uses it. -/
theorem replaceUses_usedByUser :
    (⟨0⟩ : ValueId) ≠ ⟨1⟩ ∧
      Query.expectSameType ⟨0⟩ ⟨1⟩ (afterAll { config := {} } usedByUser) = .ok () ∧
      Query.uses ⟨0⟩ (afterAll { config := {} } usedByUser) = .ok [⟨⟨2⟩, 2⟩, ⟨⟨2⟩, 0⟩, ⟨⟨1⟩, 0⟩] ∧
      ∃ s', Edit.replaceUsesIf ⟨0⟩ ⟨1⟩ (fun b _ => (b, !b)) true
          (afterAll { config := {} } usedByUser) = .ok (2, false) s' ∧
        (afterAll { config := {} } usedByUser).Relinks s' ⟨0⟩ ⟨1⟩
          [⟨⟨2⟩, 2⟩, ⟨⟨1⟩, 0⟩] [⟨⟨2⟩, 0⟩] := by
  have hty : Query.expectSameType ⟨0⟩ ⟨1⟩ (afterAll { config := {} } usedByUser) = .ok () := by
    decide +kernel
  have hus : Query.uses ⟨0⟩ (afterAll { config := {} } usedByUser) =
      .ok [⟨⟨2⟩, 2⟩, ⟨⟨2⟩, 0⟩, ⟨⟨1⟩, 0⟩] := by
    decide +kernel
  obtain ⟨hsome, -⟩ := replaceUses_afterAll nameHash {} usedByUser (by decide) hty hus
  obtain ⟨-, s', hrun, hs'⟩ := hsome (fun b _ => (b, !b)) true
  exact ⟨by decide, hty, hus, s', hrun, hs' (by decide +kernel)⟩

end Command

end ShaderIR
