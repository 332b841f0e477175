import Mathlib.Logic.Relation
import ShaderIR.Printer
import ShaderIR.Proofs.Reachable

/-! The walk over the operands of nodes, which collects all that can be reached from some nodes.
Every operand of a node joins the queue at most once, when the node is seen for the first time, so
the steps that the walk is given are enough for it. -/

namespace ShaderIR

namespace Query

variable {α β : Type} {s : Store} {q : Query α} {f : α → Query β} {Q : α → Prop} {R : β → Prop}
variable {E : Fault → Prop}

/-- What holds of the answer if a query answers, and of the fault if it fails. -/
def Gives (q : Query α) (s : Store) (Q : α → Prop) (E : Fault → Prop) : Prop :=
  match q s with
  | .ok a => Q a
  | .error x => E x

theorem gives_of_ok {a : α} (h : q s = .ok a) : Gives q s Q E ↔ Q a := by
  simp only [Gives, h]

theorem gives_of_error {x : Fault} (h : q s = .error x) : Gives q s Q E ↔ E x := by
  simp only [Gives, h]

theorem Gives.mono {Q' : α → Prop} {E' : Fault → Prop} (h : Gives q s Q E)
    (hq : ∀ a, Q a → Q' a) (hx : ∀ x, E x → E' x) : Gives q s Q' E' := by
  unfold Gives at h ⊢
  cases hr : q s with
  | ok a => simpa only [hr] using hq a (by simpa only [hr] using h)
  | error x => simpa only [hr] using hx x (by simpa only [hr] using h)

@[simp] theorem gives_pure (a : α) : Gives (pure a) s Q E ↔ Q a := Iff.rfl

@[simp] theorem gives_read {Q : Store → Prop} : Gives read s Q E ↔ Q s := Iff.rfl

theorem gives_bind : Gives (q >>= f) s R E ↔ Gives q s (fun a => Gives (f a) s R E) E := by
  change (match Except.bind (q s) fun a => f a s with | .ok b => R b | .error x => E x) ↔ _
  unfold Gives
  cases q s <;> rfl

theorem Gives.bind (h : Gives q s Q E) (hf : ∀ a, Q a → Gives (f a) s R E) :
    Gives (q >>= f) s R E :=
  gives_bind.2 (h.mono hf fun _ hx => hx)

theorem Gives.mapM {P : α → β → Prop} {as : List α} (h : ∀ a ∈ as, Gives (f a) s (P a) E) :
    Gives (as.mapM f) s (List.Forall₂ P as) E := by
  induction as with
  | nil => exact .nil
  | cons a as ih =>
    obtain ⟨ha, has⟩ := List.forall_mem_cons.1 h
    rw [List.mapM_cons]
    exact ha.bind fun b hb => (ih has).bind fun bs hbs => .cons hb hbs

theorem Gives.mapM_mem {as : List α} (h : ∀ a ∈ as, Gives (f a) s R E) :
    Gives (as.mapM f) s (fun bs => ∀ b ∈ bs, R b) E := by
  refine (Gives.mapM (P := fun _ => R) h).mono (fun bs hbs => ?_) fun _ hx => hx
  induction hbs with
  | nil => exact List.forall_mem_nil R
  | cons hb _ ih => exact List.forall_mem_cons.2 ⟨hb, ih fun a ha => h a (List.mem_cons_of_mem _ ha)⟩

theorem Gives.flatten {f : α → Query (List β)} {P : α → β → Prop} {as : List α}
    (h : ∀ a ∈ as, Gives (f a) s (fun bs => ∀ b, b ∈ bs ↔ P a b) E) :
    Gives (as.mapM f) s (fun bss => ∀ b, b ∈ bss.flatten ↔ ∃ a ∈ as, P a b) E := by
  refine (Gives.mapM h).mono (fun bss hbss b => ?_) fun _ hx => hx
  clear h
  induction hbss with
  | nil => simp
  | cons hbs _ ih => simp [hbs, ih]

theorem Gives.filterMap {f : α → Query (Option β)} {P : α → β → Prop} {as : List α}
    (h : ∀ a ∈ as, Gives (f a) s (fun o => ∀ b, o = some b ↔ P a b) E) :
    Gives (as.mapM f) s (fun os => ∀ b, b ∈ os.filterMap id ↔ ∃ a ∈ as, P a b) E := by
  refine (Gives.mapM h).mono (fun os hos b => ?_) fun _ hx => hx
  clear h
  induction hos with
  | nil => simp
  | cons ho _ ih =>
    simp only [List.mem_filterMap, List.mem_cons, id, exists_eq_or_imp, exists_eq_right] at ih ⊢
    rw [ho, ih]

end Query

namespace Store

variable {s : Store} {n k r : NodeId} {d : Node} {queue : List NodeId}
variable {seen seen' : Std.ExtTreeMap NodeId Unit}

def Points (s : Store) (n k : NodeId) : Prop := ∃ i, s.Holds (.operand n i) k

theorem points_iff (hd : s.metadata.nodes.get? n = some d) :
    s.Points n k ↔ k ∈ d.content.operands.filterMap id := by
  simp only [List.mem_filterMap, id, exists_eq_right]
  constructor
  · rintro ⟨i, hheld⟩
    cases hheld with
    | operand hd' htuple hop =>
      obtain rfl := Option.some.inj (hd.symm.trans hd')
      rw [htuple]
      exact List.mem_of_getElem? hop
  · intro hk
    cases htuple : d.content with
    | tuple ops =>
      rw [htuple] at hk
      obtain ⟨i, hi⟩ := List.mem_iff_getElem?.1 hk
      exact ⟨i, .operand hd htuple hi⟩
    | _ => simp [htuple, Content.operands] at hk

abbrev Leads (s : Store) : NodeId → NodeId → Prop := Relation.ReflTransGen s.Points

/-- What a walk has seen in the end, which starts with a queue and with what it has seen before. -/
structure Walks (s : Store) (queue : List NodeId) (seen seen' : Std.ExtTreeMap NodeId Unit) :
    Prop where
  kept : ∀ n ∈ seen, n ∈ seen'
  queued : ∀ n ∈ queue, n ∈ seen'
  closed : ∀ n ∈ seen', n ∉ seen → ∀ k, s.Points n k → k ∈ seen'
  reached : ∀ n ∈ seen', n ∉ seen → ∃ r ∈ queue, s.Leads r n

theorem Walks.stop : s.Walks [] seen seen where
  kept _ h := h
  queued _ h := by cases h
  closed _ h hn := absurd h hn
  reached _ h hn := absurd h hn

theorem Walks.skip (h : s.Walks queue seen seen') (hn : n ∈ seen) :
    s.Walks (n :: queue) seen seen' where
  kept := h.kept
  queued := List.forall_mem_cons.2 ⟨h.kept n hn, h.queued⟩
  closed := h.closed
  reached k hk hs := by
    obtain ⟨r, hr, hrk⟩ := h.reached k hk hs
    exact ⟨r, List.mem_cons_of_mem n hr, hrk⟩

theorem leads_of_enqueued (hd : s.metadata.nodes.get? n = some d)
    (h : ∃ r ∈ queue ++ d.content.operands.filterMap id, s.Leads r k) :
    ∃ r ∈ n :: queue, s.Leads r k := by
  obtain ⟨r, hr, hrk⟩ := h
  rcases List.mem_append.1 hr with hr | hr
  · exact ⟨r, List.mem_cons_of_mem n hr, hrk⟩
  · exact ⟨n, List.mem_cons_self, hrk.head ((points_iff hd).2 hr)⟩

theorem Walks.enter (hd : s.metadata.nodes.get? n = some d)
    (h : s.Walks (queue ++ d.content.operands.filterMap id) (seen.insert n ()) seen') :
    s.Walks (n :: queue) seen seen' := by
  have hmem {k : NodeId} : k ∈ seen.insert n () ↔ n = k ∨ k ∈ seen := by
    simp [Std.ExtTreeMap.mem_insert, Std.LawfulEqCmp.compare_eq_iff_eq]
  have hn : n ∈ seen' := h.kept n (hmem.2 (.inl rfl))
  have hqueue := List.forall_mem_append.1 h.queued
  refine ⟨fun k hk => h.kept k (hmem.2 (.inr hk)), List.forall_mem_cons.2 ⟨hn, hqueue.1⟩,
    fun k hk hs => ?_, fun k hk hs => ?_⟩
  · by_cases hkn : n = k
    · subst hkn
      exact fun l hl => hqueue.2 l ((points_iff hd).1 hl)
    · exact h.closed k hk fun hin => (hmem.1 hin).elim hkn hs
  · by_cases hkn : n = k
    · subst hkn
      exact ⟨n, List.mem_cons_self, .refl⟩
    · exact leads_of_enqueued hd (h.reached k hk fun hin => (hmem.1 hin).elim hkn hs)

theorem Walks.mem_iff (h : s.Walks queue ∅ seen') : n ∈ seen' ↔ ∃ r ∈ queue, s.Leads r n := by
  have hnone (k : NodeId) : k ∉ (∅ : Std.ExtTreeMap NodeId Unit) :=
    Std.ExtTreeMap.not_mem_empty
  constructor
  · exact fun hn => h.reached n hn (hnone n)
  · rintro ⟨r, hr, hrn⟩
    induction hrn with
    | refl => exact h.queued r hr
    | tail _ hpoints ih => exact h.closed _ ih (hnone _) _ hpoints

def unseenOperands (s : Store) (seen : Std.ExtTreeMap NodeId Unit) : Nat :=
  ((s.metadata.nodes.toList.filter fun p => !seen.contains p.1).flatMap
    fun p => p.2.content.operands).length

theorem unseenOperands_empty : s.unseenOperands ∅ =
    (s.metadata.nodes.toList.flatMap fun p => p.2.content.operands).length := by
  simp [unseenOperands]

theorem length_flatMap_filter_add_le {α β : Type} {l : List α} {p p' : α → Bool}
    {f : α → List β} {a : α} (ha : a ∈ l) (hp : p a = true) (hp' : p' a = false)
    (h : ∀ b, p' b = true → p b = true) :
    ((l.filter p').flatMap f).length + (f a).length ≤ ((l.filter p).flatMap f).length := by
  have hle (l : List α) : ((l.filter p').flatMap f).length ≤ ((l.filter p).flatMap f).length := by
    induction l with
    | nil => exact Nat.le_refl _
    | cons b l ih =>
      have hb := h b
      cases hb' : p' b <;> cases hpb : p b <;> simp_all only [List.filter_cons, List.flatMap_cons,
        List.length_append, if_true, if_false, Bool.false_eq_true] <;> omega
  obtain ⟨l₁, l₂, rfl⟩ := List.append_of_mem ha
  have hl₁ := hle l₁
  have hl₂ := hle l₂
  simp only [List.filter_append, List.filter_cons, hp, hp', if_true, Bool.false_eq_true, if_false,
    List.flatMap_append, List.flatMap_cons, List.length_append]
  omega

theorem unseenOperands_insert (hd : s.metadata.nodes.get? n = some d) (hn : n ∉ seen) :
    s.unseenOperands (seen.insert n ()) + d.content.operands.length ≤ s.unseenOperands seen := by
  apply length_flatMap_filter_add_le (f := fun p => p.2.content.operands)
    (Arena.mem_toList.2 hd)
  · rw [Std.ExtTreeMap.mem_iff_contains, Bool.not_eq_true] at hn
    simpa only [Bool.not_eq_true'] using hn
  · simp
  · intro p hp
    simp only [Bool.not_eq_true', Std.ExtTreeMap.contains_insert, Bool.or_eq_false_iff] at hp
    simp [hp.2]

theorem increasing_keys (seen : Std.ExtTreeMap NodeId Unit) :
    (seen.toList.map Prod.fst).Pairwise fun n k => n.index < k.index := by
  have hlt {n k : NodeId} (h : compare n k = .lt) : n.index < k.index := by
    change compare [n.index] [k.index] = .lt at h
    rw [List.compare_eq_compareLex, List.compareLex_cons_cons, List.compareLex_nil_nil] at h
    simpa [Nat.compare_eq_lt] using h
  rw [List.pairwise_map]
  exact Std.ExtTreeMap.ordered_keys_toList.imp hlt

end Store

namespace Query

open Store

variable {s : Store} {m : ModuleId} {steps : Nat} {queue : List NodeId}
variable {seen : Std.ExtTreeMap NodeId Unit} {roots : List NodeId}

/-- A walk with a step for everything in its queue and for every operand of a node that it has not
seen ends, unless it comes to a node that has been erased. -/
theorem gives_visitNodes (h : queue.length + s.unseenOperands seen ≤ steps) :
    Gives (visitNodes steps queue seen) s (s.Walks queue seen) fun x =>
      ∃ n, (∃ r ∈ queue, s.Leads r n) ∧ s.metadata.nodes.get? n = none ∧
        x = .violation (.staleNode n) := by
  -- A node that has been seen costs one step and is one less in the queue; a new node adds to the
  -- queue what it takes from the operands that have not been seen.
  induction steps generalizing queue seen with
  | zero =>
    have hnil : queue = [] := List.eq_nil_of_length_eq_zero (by omega)
    subst hnil
    exact .stop
  | succ steps ih =>
    cases queue with
    | nil => exact .stop
    | cons n queue =>
      rw [List.length_cons] at h
      rw [visitNodes]
      split
      next hn =>
        refine (ih (by omega)).mono (fun _ hw => hw.skip (by simpa using hn)) ?_
        rintro x ⟨k, ⟨r, hr, hrk⟩, hk⟩
        exact ⟨k, ⟨r, List.mem_cons_of_mem n hr, hrk⟩, hk⟩
      next hn =>
        rw [gives_bind]
        cases hd : s.metadata.nodes.get? n with
        | none =>
          have herror : nodeOperands n s = .error (.violation (.staleNode n)) := by
            have hnode : node n s = .error (.violation (.staleNode n)) := by simp only [node, hd]
            simp only [nodeOperands, bind, ReaderT.bind, hnode, Except.bind]
          exact (gives_of_error herror).2 ⟨n, ⟨n, List.mem_cons_self, .refl⟩, hd, rfl⟩
        | some d =>
          rw [gives_of_ok (nodeOperands_ok.2 ⟨d, hd, rfl⟩)]
          have hnew : n ∉ seen := by simpa using hn
          have hpending := unseenOperands_insert hd hnew
          have hjoined := List.length_filterMap_le id d.content.operands
          have hsteps : (queue ++ d.content.operands.filterMap id).length +
              s.unseenOperands (seen.insert n ()) ≤ steps := by
            rw [List.length_append]
            omega
          refine (ih hsteps).mono (fun _ hw => hw.enter hd) ?_
          rintro x ⟨k, hk, hx⟩
          exact ⟨k, leads_of_enqueued hd hk, hx⟩

theorem gives_reachableNodes {P : NodeId → Prop} {E : Fault → Prop}
    (h : Gives (moduleNodes m) s (fun roots => ∀ n, n ∈ roots ↔ P n) E) :
    Gives (reachableNodes m) s
      (fun ns => ns.Pairwise (fun n k => n.index < k.index) ∧
        ∀ n, n ∈ ns ↔ ∃ r, P r ∧ s.Leads r n)
      fun x => E x ∨ ∃ n, (∃ r, P r ∧ s.Leads r n) ∧ s.metadata.nodes.get? n = none ∧
        x = .violation (.staleNode n) := by
  unfold reachableNodes
  refine (h.mono (fun _ h => h) fun _ => .inl).bind fun roots hroots => ?_
  rw [gives_bind, gives_read]
  have hexists {n : NodeId} : (∃ r ∈ roots, s.Leads r n) ↔ ∃ r, P r ∧ s.Leads r n := by
    simp only [hroots]
  have hwalk := gives_visitNodes (Nat.le_refl (roots.length + s.unseenOperands ∅))
  rw [unseenOperands_empty] at hwalk
  refine (hwalk.mono (fun _ h => h) ?_).bind fun seen hwalks => ?_
  · rintro x ⟨n, hn, hdead, hx⟩
    exact .inr ⟨n, hexists.1 hn, hdead, hx⟩
  · refine ⟨increasing_keys seen, fun n => ?_⟩
    rw [Std.ExtTreeMap.map_fst_toList_eq_keys, Std.ExtTreeMap.mem_keys, hwalks.mem_iff, hexists]

end Query

end ShaderIR
