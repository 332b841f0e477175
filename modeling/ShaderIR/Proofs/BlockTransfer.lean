import ShaderIR.Proofs.Lookup

/-! Moving a block to another function. The names of the block and of its instructions leave one
symbol table and enter another, one after the other. A name that is taken there gets a counter, and
with it may take the name of a member whose turn is still to come; so what becomes of a name depends
on the table that the members before it have left. -/

namespace ShaderIR

namespace SymbolTable

section Enrolling

variable {hash : String → UInt64} {t t₁ t' : SymbolTable} {v w : ValueId} {vs : List ValueId}
variable {k : UInt64} {text text' : String} {o o' : Option String}
variable {name name' name'' : ValueId → Option String}

/-- A value comes to a table with a name or without. Without one it is not entered. A name of which
the hash is free is kept, and one that is taken gets the counter that is due. -/
inductive Admits (hash : String → UInt64) (t : SymbolTable) (v : ValueId) :
    Option String → Option String → SymbolTable → Prop
  | unnamed : Admits hash t v none none t
  | free {text : String} : t.lookup hash text = none →
      Admits hash t v (some text) (some text) (t.insert (hash text) v)
  | taken {text : String} {n : Nat} : t.lookup hash text ≠ none → IsNextCounter hash t text n →
      Admits hash t v (some text) (some (t.candidate text n))
        { t.insert (hash (t.candidate text n)) v with lastUnique := n }

/-- Values come to a table one after the other, with the names of one naming, and have the names of
another one then. -/
inductive Enrolls (hash : String → UInt64) (name name' : ValueId → Option String) :
    SymbolTable → List ValueId → SymbolTable → Prop
  | nil {t : SymbolTable} : Enrolls hash name name' t [] t
  | cons {t t₁ t' : SymbolTable} {v : ValueId} {vs : List ValueId} :
      t.Admits hash v (name v) (name' v) t₁ → Enrolls hash name name' t₁ vs t' →
      Enrolls hash name name' t (v :: vs) t'

/-- Values that come to a table one after the other need no counter that is used up: where the name
of one is taken when its turn comes, some counter above the last one makes a free name of it. -/
def CountersSuffice (hash : String → UInt64) (name : ValueId → Option String) :
    SymbolTable → List ValueId → Prop
  | _, [] => True
  | t, v :: vs =>
    (∀ text, name v = some text → t.lookup hash text ≠ none → ∃ n, t.lastUnique < n ∧
      n < counterLimit ∧ t.lookup hash (t.candidate text n) = none) ∧
    ∀ o t₁, t.Admits hash v (name v) o t₁ → CountersSuffice hash name t₁ vs

/-- A table has kept its entries and has one more for each of some values that are named. -/
structure Gains (hash : String → UInt64) (name : ValueId → Option String) (vs : List ValueId)
    (t t' : SymbolTable) : Prop where
  kept : ∀ {k w}, t.find? k = some w → t'.find? k = some w
  entry : ∀ {w}, w ∈ vs → ∀ k, t'.find? k = some w ↔ (name w).map hash = some k
  only : ∀ {k w}, t'.find? k = some w → w ∈ vs ∨ t.find? k = some w

theorem admits_of_claim (h : t.claim hash text v = (some text', t')) :
    t.Admits hash v (some text) (some text') t' := by
  rcases claim_cases hash t text v with ⟨hfree, heq⟩ | ⟨htaken, n, hn, heq⟩ | ⟨-, -, heq⟩
  · cases heq.symm.trans h
    exact .free hfree
  · cases heq.symm.trans h
    exact .taken htaken hn
  · cases heq.symm.trans h

theorem Admits.find?_eq_some_iff (h : t.Admits hash v o o' t') : t'.find? k = some w ↔
    t.find? k = some w ∨ w = v ∧ o'.map hash = some k := by
  have hinsert {x : UInt64} (hfree : t.find? x = none) : (t.insert x v).find? k = some w ↔
      t.find? k = some w ∨ w = v ∧ some x = some k := by
    rw [find?_insert, Option.some.injEq]
    split
    next hx =>
      rw [← hx, hfree, Option.some.injEq]
      simp [eq_comm]
    next hx => simp [hx]
  cases h with
  | unnamed => simp
  | free hfree => exact hinsert hfree
  | taken _ hn => exact hinsert hn.free

theorem Admits.eq_none (h : t.Admits hash v o o' t') (ho : o = none) : o' = none := by
  cases h with
  | unnamed => rfl
  | free => cases ho
  | taken => cases ho

theorem IsNextCounter.unique {m n : Nat} (hm : IsNextCounter hash t text m)
    (hn : IsNextCounter hash t text n) : m = n := by
  rcases Nat.lt_trichotomy m n with hlt | heq | hlt
  · exact absurd hm.free (hn.least m hm.above hlt)
  · exact heq
  · exact absurd hn.free (hm.least n hn.above hlt)

theorem Admits.unique {o₁ o₂ : Option String} {t₂ : SymbolTable} (h : t.Admits hash v o o₁ t₁)
    (h' : t.Admits hash v o o₂ t₂) : t₁ = t₂ := by
  cases h with
  | unnamed =>
    cases h'
    rfl
  | free hfree =>
    cases h' with
    | free => rfl
    | taken htaken => exact absurd hfree htaken
  | taken htaken hn =>
    cases h' with
    | free hfree => exact absurd hfree htaken
    | taken _ hn' =>
      obtain rfl := hn.unique hn'
      rfl

theorem CountersSuffice.congr (h : t.CountersSuffice hash name vs)
    (heq : ∀ v ∈ vs, name'' v = name v) : t.CountersSuffice hash name'' vs := by
  induction vs generalizing t with
  | nil => trivial
  | cons v vs ih =>
    rw [CountersSuffice, heq v (List.mem_cons_self ..)]
    exact ⟨h.1, fun o t₁ hadmits => ih (h.2 o t₁ hadmits) fun w hw =>
      heq w (List.mem_cons_of_mem v hw)⟩

theorem CountersSuffice.cons (h : t.Admits hash v (name v) o t₁)
    (hrest : t₁.CountersSuffice hash name vs) : t.CountersSuffice hash name (v :: vs) := by
  refine ⟨fun text htext htaken => ?_, fun o t₂ h' => h.unique h' ▸ hrest⟩
  rw [htext] at h
  cases h with
  | free hfree => exact absurd hfree htaken
  | taken _ hn => exact ⟨_, hn.above, hn.below, hn.free⟩

theorem not_countersSuffice_of_claim (htext : name v = some text)
    (h : t.claim hash text v = (none, t')) (vs : List ValueId) :
    ¬ t.CountersSuffice hash name (v :: vs) := by
  rintro ⟨hcounter, -⟩
  rcases claim_cases hash t text v with ⟨-, heq⟩ | ⟨-, n, -, heq⟩ | ⟨htaken, hnone, -⟩
  · cases heq.symm.trans h
  · cases heq.symm.trans h
  · obtain ⟨n, habove, hbelow, hfree⟩ := hcounter text htext htaken
    exact hnone n habove hbelow hfree

def enterAll (hash : String → UInt64) (name : ValueId → Option String) :
    SymbolTable → List ValueId → Option SymbolTable
  | t, [] => some t
  | t, v :: vs =>
    match name v with
    | none => enterAll hash name t vs
    | some text =>
      match t.claim hash text v with
      | (none, _) => none
      | (some _, t') => enterAll hash name t' vs

theorem countersSuffice_iff :
    t.CountersSuffice hash name vs ↔ (t.enterAll hash name vs).isSome = true := by
  induction vs generalizing t with
  | nil => exact iff_of_true trivial rfl
  | cons v vs ih =>
    cases htext : name v with
    | none =>
      have hadmits : t.Admits hash v (name v) none t := by
        rw [htext]
        exact .unnamed
      simp only [enterAll, htext, ← ih]
      exact ⟨fun h => h.2 none t hadmits, .cons hadmits⟩
    | some text =>
      cases hclaim : t.claim hash text v with
      | mk claimed t' =>
        simp only [enterAll, htext, hclaim]
        cases claimed with
        | none => exact iff_of_false (not_countersSuffice_of_claim htext hclaim vs) nofun
        | some text' =>
          have hadmits : t.Admits hash v (name v) (some text') t' :=
            htext ▸ admits_of_claim hclaim
          rw [← ih]
          exact ⟨fun h => h.2 _ t' hadmits, .cons hadmits⟩

instance : Decidable (t.CountersSuffice hash name vs) := decidable_of_iff _ countersSuffice_iff.symm

theorem Enrolls.congr (h : Enrolls hash name name' t vs t')
    (heq : ∀ v ∈ vs, name'' v = name v) : Enrolls hash name'' name' t vs t' := by
  induction h with
  | nil => exact .nil
  | @cons t t₁ t' v vs hadmits _ ih =>
    refine .cons ?_ (ih fun w hw => heq w (List.mem_cons_of_mem v hw))
    rw [heq v (List.mem_cons_self ..)]
    exact hadmits

theorem Enrolls.find?_eq_some_iff (h : Enrolls hash name name' t vs t') : t'.find? k = some w ↔
    t.find? k = some w ∨ w ∈ vs ∧ (name' w).map hash = some k := by
  induction h with
  | nil => simp
  | @cons t t₁ t' v vs hadmits _ ih =>
    rw [ih, hadmits.find?_eq_some_iff, List.mem_cons, or_assoc]
    refine or_congr_right ⟨?_, ?_⟩
    · rintro (⟨rfl, hk⟩ | ⟨hw, hk⟩)
      · exact ⟨.inl rfl, hk⟩
      · exact ⟨.inr hw, hk⟩
    · rintro ⟨rfl | hw, hk⟩
      · exact .inl ⟨rfl, hk⟩
      · exact .inr ⟨hw, hk⟩

theorem Enrolls.eq_none (h : Enrolls hash name name' t vs t') (hv : v ∈ vs)
    (hnone : name v = none) :
    name' v = none := by
  induction h with
  | nil => cases hv
  | @cons t t₁ t' u vs hadmits _ ih =>
    rcases List.mem_cons.1 hv with rfl | hv
    · exact hadmits.eq_none hnone
    · exact ih hv

theorem Enrolls.gains (h : Enrolls hash name name' t vs t')
    (hnew : ∀ k w, t.find? k = some w → w ∉ vs) : Gains hash name' vs t t' where
  kept hf := h.find?_eq_some_iff.2 (.inl hf)
  entry hw k := by
    rw [h.find?_eq_some_iff, or_iff_right fun hf => hnew _ _ hf hw]
    exact and_iff_right hw
  only hf := (h.find?_eq_some_iff.1 hf).symm.imp_left And.left

end Enrolling

end SymbolTable

namespace Store

def nameOf (s : Store) (v : ValueId) : Option String := (s.values.get? v).bind Value.name

/-- Values have been entered in the table of a scope one after the other. Before that the layout and
the names were what is given. -/
structure Registers (hash : String → UInt64) (L : Layout) (name : ValueId → Option String)
    (sc : Scope) (vs : List ValueId) (s' : Store) : Prop where
  hash_eq : s'.hash = hash
  renamed : L.Renamed s'.layout
  elsewhere : ∀ {sc'}, sc' ≠ sc → s'.layout.tables sc' = L.tables sc'
  table : ∀ {t}, L.tables sc = some t →
    ∃ t', s'.layout.tables sc = some t' ∧ t.Enrolls hash name s'.nameOf vs t'
  names : ∀ {w}, w ∉ vs → s'.nameOf w = name w

variable {s s₁ s' : Store} {v b f g : ValueId} {vs : List ValueId} {sc : Scope} {L : Layout}
variable {name : ValueId → Option String} {hash : String → UInt64}

theorem nameOf_of_labels (h : s'.labels = s.labels) : s'.nameOf = s.nameOf := by
  funext v
  have hv : (s'.values.get? v).map Value.label = (s.values.get? v).map Value.label := by
    rw [← get?_labels, ← get?_labels, h]
  have hname (s : Store) : s.nameOf v = ((s.values.get? v).map Value.label).bind Prod.fst := by
    rw [nameOf, Option.bind_map]
    rfl
  rw [hname, hname, hv]

theorem Registers.nil (s : Store) (sc : Scope) : Registers s.hash s.layout s.nameOf sc [] s where
  hash_eq := rfl
  renamed := .refl _
  elsewhere _ := rfl
  table ht := ⟨_, ht, .nil⟩
  names _ := rfl

theorem Enters.registers (h : s.Enters v s') (hsc : s.layout.scope v = some sc) :
    Registers s.hash s.layout s.nameOf sc [v] s' := by
  cases h with
  | @nothing d hd hnone =>
    have hname : d.name = none := hnone.resolve_right fun hnone => by cases hnone.symm.trans hsc
    have hunnamed : s.nameOf v = none := by rw [nameOf, hd, Option.bind_some, hname]
    refine ⟨rfl, .refl _, fun _ => rfl, fun {t} ht => ⟨t, ht, .cons ?_ .nil⟩, fun _ => rfl⟩
    rw [hunnamed]
    exact .unnamed
  | @entry d sc' t t' text text' hd hname hscope ht hclaim =>
    obtain rfl := Option.some.inj (hscope.symm.trans hsc)
    have hd' : (s.setTable sc' t').values.get? v = some d := hd
    have hlayout := layout_rename hd' (isResident_of_scope hscope hd)
      (g := fun d => { d with name := some text', nameHash := s.hash text' }) rfl
    rw [layout_setTable ht] at hlayout
    have hcell (w : ValueId) : ((s.setTable sc' t').modifyValue v fun d =>
        { d with name := some text', nameHash := s.hash text' }).nameOf w =
        if v = w then (s.values.get? w).bind fun _ => some text' else s.nameOf w := by
      rw [nameOf, modifyValue, Arena.get?_modify, nameOf]
      split
      · exact Option.bind_map ..
      · rfl
    refine ⟨rfl, ?_, fun hne => ?_, fun {t₀} ht₀ => ⟨t', ?_, .cons ?_ .nil⟩, fun hw => ?_⟩
    · rw [hlayout]
      exact ⟨rfl, rfl, rfl, rfl, rfl⟩
    · rw [hlayout]
      exact Function.update_of_ne hne ..
    · rw [hlayout]
      exact Function.update_self ..
    · obtain rfl := Option.some.inj (ht.symm.trans ht₀)
      rw [hcell, if_pos rfl, nameOf, hd, Option.bind_some, Option.bind_some, hname]
      exact SymbolTable.admits_of_claim hclaim
    · rw [hcell, if_neg fun hv => hw (List.mem_singleton.2 hv.symm)]

theorem Unnames.not_countersSuffice {t : SymbolTable} (h : s.Unnames v s')
    (hsc : s.layout.scope v = some sc) (ht : s.layout.tables sc = some t) (vs : List ValueId) :
    ¬ t.CountersSuffice s.hash s.nameOf (v :: vs) := by
  cases h with
  | @mk d sc' t' t'' text hd hname hscope ht' hclaim =>
    obtain rfl := Option.some.inj (hscope.symm.trans hsc)
    obtain rfl := Option.some.inj (ht'.symm.trans ht)
    have htext : s.nameOf v = some text := by rw [nameOf, hd, Option.bind_some, hname]
    exact SymbolTable.not_countersSuffice_of_claim htext hclaim vs

theorem Registers.cons (h : Registers hash L name sc [v] s₁)
    (h' : Registers hash s₁.layout s₁.nameOf sc vs s') (hv : v ∉ vs) :
    Registers hash L name sc (v :: vs) s' where
  hash_eq := h'.hash_eq
  renamed := h.renamed.trans h'.renamed
  elsewhere hsc := (h'.elsewhere hsc).trans (h.elsewhere hsc)
  table ht := by
    obtain ⟨t₁, ht₁, hfirst⟩ := h.table ht
    obtain ⟨t', ht', hrest⟩ := h'.table ht₁
    refine ⟨t', ht', ?_⟩
    cases hfirst with
    | cons hadmits hnil =>
      cases hnil
      refine .cons (h'.names hv ▸ hadmits) (hrest.congr fun w hw => ?_)
      exact (h.names fun hwv => hv (List.mem_singleton.1 hwv ▸ hw)).symm
  names hw := by
    rw [List.mem_cons, not_or] at hw
    exact (h'.names hw.2).trans (h.names (mt List.mem_singleton.1 hw.1))

/-- What moving a block to the end of another function leaves. The block and its instructions, in
this order, leave one table and enter the other. -/
structure MovesBlock (hash : String → UInt64) (s : Store) (b f g : ValueId) (insts : List ValueId)
    (s' : Store) : Prop where
  parent : Query.blockParent b s' = .ok (some g)
  source : ∃ before after, Query.functionBlocks f s = .ok (before ++ b :: after) ∧
    Query.functionBlocks f s' = .ok (before ++ after)
  target : ∃ blocks, Query.functionBlocks g s = .ok blocks ∧
    Query.functionBlocks g s' = .ok (blocks ++ [b])
  instructions : Query.blockInstructions b s = .ok insts ∧ Query.blockInstructions b s' = .ok insts
  delisted : ∃ t t', Query.symbols (.function f) s = .ok t ∧
    Query.symbols (.function f) s' = .ok t' ∧ t.Delisted t' (b :: insts)
  enrolled : ∃ t t', Query.symbols (.function g) s = .ok t ∧
    Query.symbols (.function g) s' = .ok t' ∧
    t.Enrolls hash s.nameOf s'.nameOf (b :: insts) t' ∧
    SymbolTable.Gains hash s'.nameOf (b :: insts) t t'
  names : ∀ v, v ∉ b :: insts ∨ s.nameOf v = none → s'.nameOf v = s.nameOf v

theorem scope_ne_target (hp : s.layout.Placed) (hb : s.layout.place b = some (.blocks f))
    (hne : g ≠ f) (hv : v ∈ b :: s.layout.children (.instructions b)) :
    s.layout.scope v ≠ some (.function g) := by
  rw [scope_of_members hp hb hv, Ne, Option.some.injEq, Scope.function.injEq]
  exact hne.symm

theorem mem_members_iff (L : Layout) (b v : ValueId) : v ∈ b :: L.children (.instructions b) ↔
    v ∈ L.children (.instructions b) ++ [b] :=
  (List.perm_append_singleton b _).mem_iff.symm

theorem tables_target (hs : s.layout.Consistent True) (hb : s.layout.place b = some (.blocks f))
    (hne : g ≠ f)
    (hdelisted : s.layout.Delisted s₁.layout (s.layout.children (.instructions b) ++ [b])) :
    s₁.layout.tables (.function g) = s.layout.tables (.function g) :=
  hdelisted.elsewhere _ fun w hw =>
    scope_ne_target hs.placed hb hne ((mem_members_iff s.layout b w).2 hw)

theorem Registers.movesBlock (hs : s.layout.Consistent True)
    (hb : s.layout.place b = some (.blocks f)) (hg : s.layout.kind g = some .function) (hne : g ≠ f)
    (hdelisted : s.layout.Delisted s₁.layout (s.layout.children (.instructions b) ++ [b]))
    (hr : (s.layout.detach b (.blocks f)).Renamed s₁.layout)
    (h : Registers hash (s₁.layout.attach b (.blocks g) none) s.nameOf (.function g)
      (b :: s.layout.children (.instructions b)) s') :
    s.MovesBlock hash b f g (s.layout.children (.instructions b)) s' := by
  have hkf : s.layout.kind f = some .function := kind_of_mem_blocks ((hs.placed.child b _).1 hb)
  have hlayout : ((s.layout.detach b (.blocks f)).attach b (.blocks g) none).Renamed s'.layout :=
    hr.attach.trans h.renamed
  have hplace : s'.layout.place b = some (.blocks g) := by
    rw [hlayout.place, Layout.place_attach_self]
  have hfg : Place.blocks f ≠ .blocks g := fun h => hne (Place.blocks.inj h).symm
  obtain ⟨before, after, hsplit⟩ := List.append_of_mem ((hs.placed.child b _).1 hb)
  have hsource : s'.layout.children (.blocks f) = before ++ after := by
    rw [hlayout.children, Layout.children_move_source hfg, hsplit]
    exact without_append_cons (hsplit ▸ hs.placed.nodup _)
  have htarget : s'.layout.children (.blocks g) = s.layout.children (.blocks g) ++ [b] := by
    rw [hlayout.children, Layout.children_move_target hfg, insertBefore_none]
  have hinsts : s'.layout.children (.instructions b) = s.layout.children (.instructions b) := by
    rw [hlayout.children]
    exact Layout.children_move nofun nofun
  have htf : s.layout.tables (.function f) = some (s.table (.function f)) :=
    tables_function.2 ⟨hkf, rfl⟩
  have htg : s.layout.tables (.function g) = some (s.table (.function g)) :=
    tables_function.2 ⟨hg, rfl⟩
  obtain ⟨t₁, ht₁, hleft⟩ := hdelisted.tables htf
  have ht₁' : s'.layout.tables (.function f) = some t₁ :=
    (h.elsewhere fun h => hne (Scope.function.inj h).symm).trans ht₁
  obtain ⟨t', ht', henrolls⟩ := h.table ((tables_target hs hb hne hdelisted).trans htg)
  -- The table of the target knows no member of the block until then.
  have hgains := henrolls.gains fun k w hf hw =>
    scope_ne_target hs.placed hb hne hw (hs.named.owned htg hf).2.2
  refine ⟨Query.blockParent_of_place hplace,
    ⟨before, after, Query.functionBlocks_ok.2 ⟨hkf, hsplit⟩,
      Query.functionBlocks_ok.2 ⟨hlayout.kind ▸ hkf, hsource⟩⟩,
    ⟨_, Query.functionBlocks_ok.2 ⟨hg, rfl⟩,
      Query.functionBlocks_ok.2 ⟨hlayout.kind ▸ hg, htarget⟩⟩,
    ⟨Query.blockInstructions_ok.2 ⟨kind_of_place hb, rfl⟩,
      Query.blockInstructions_ok.2 ⟨hlayout.kind ▸ kind_of_place hb, hinsts⟩⟩,
    ⟨_, t₁, Query.symbols_ok.2 htf, Query.symbols_ok.2 ht₁', hleft.congr (mem_members_iff s.layout b)⟩,
    ⟨_, t', Query.symbols_ok.2 htg, Query.symbols_ok.2 ht', henrolls, hgains⟩, fun v hv => ?_⟩
  by_cases hmem : v ∈ b :: s.layout.children (.instructions b)
  · have hnone : s.nameOf v = none := hv.resolve_left fun hnot => hnot hmem
    rw [hnone]
    exact henrolls.eq_none hmem hnone
  · exact h.names hmem

end Store

namespace Edit

open Store Layout

variable {s : Store} {b f g : ValueId} {anchor : Option ValueId} {vs : List ValueId} {sc : Scope}

theorem ends_registerNames_registers (hp : s.layout.Placed) (hvs : vs.Nodup)
    (hk : ∀ v ∈ vs, ∃ k, s.layout.kind v = some k) (hsc : ∀ v ∈ vs, s.layout.scope v = some sc) :
    Ends (vs.forM registerName) s (fun _ s' => Registers s.hash s.layout s.nameOf sc vs s')
      fun x _ => x = .counterExhausted ∧ ∀ t, s.layout.tables sc = some t →
        ¬ t.CountersSuffice s.hash s.nameOf vs := by
  induction vs generalizing s with
  | nil => exact .nil s sc
  | cons v vs ih =>
    obtain ⟨hv, hvs⟩ := List.nodup_cons.1 hvs
    obtain ⟨k, hkv⟩ := hk v (List.mem_cons_self ..)
    have hscope := hsc v (List.mem_cons_self ..)
    change Ends (registerName v >>= fun _ => vs.forM registerName) s _ _
    refine Ends.bind ((ends_registerName_enters hp hkv).mono (fun _ _ h => h)
      fun _ _ h => ⟨h.1, fun t ht => h.2.not_countersSuffice hscope ht vs⟩) ?_
    intro _ s₁ henters
    have hfirst := henters.registers hscope
    have hrest := ih (hfirst.renamed.placed hp) hvs
      (fun w hw => hfirst.renamed.kind ▸ hk w (List.mem_cons_of_mem v hw))
      fun w hw => hfirst.renamed.scope ▸ hsc w (List.mem_cons_of_mem v hw)
    rw [hfirst.hash_eq] at hrest
    refine hrest.mono (fun _ s' h => hfirst.cons h hv) fun _ _ h => ⟨h.1, fun t ht hsuffice => ?_⟩
    obtain ⟨t₁, ht₁, henrolls⟩ := hfirst.table ht
    cases henrolls with
    | cons hadmits hnil =>
      cases hnil
      refine h.2 t₁ ht₁ ((hsuffice.2 _ t₁ hadmits).congr fun w hw => hfirst.names fun hwv => ?_)
      exact hv (List.mem_singleton.1 hwv ▸ hw)

theorem ends_insertBlock_registers (anchor : Option ValueId) (hp : s.layout.Placed)
    (hb : s.layout.kind b = some .block) (hplace : s.layout.place b = none)
    (hg : s.layout.kind g = some .function) :
    Ends (insertBlock g b anchor) s (fun _ s' =>
      Registers s.hash (s.layout.attach b (.blocks g) anchor) s.nameOf (.function g)
        (b :: s.layout.children (.instructions b)) s')
      fun x _ => x = .counterExhausted ∧ ∀ t, s.layout.tables (.function g) = some t →
        ¬ t.CountersSuffice s.hash s.nameOf (b :: s.layout.children (.instructions b)) := by
  have hfixes : Fixes Store.naming
      (do setBlockParent b (some g); modifyBlocks g (insertBefore b anchor)) :=
    .bind fixes_setBlockParent fun _ => fixes_modifyBlocks
  refine ends_insertBlock hp hb hplace hg ((hfixes.ends s).mono (fun _ _ h => h)
    fun _ _ _ => trivial) fun s₁ hs₁ hnaming => ?_
  have hplace₁ : s₁.layout.place b = some (.blocks g) := by rw [hs₁, place_attach_self]
  have hp₁ : s₁.layout.Placed := hs₁ ▸ hp.attach hplace
  have hinsts : s₁.layout.children (.instructions b) = s.layout.children (.instructions b) := by
    rw [hs₁]
    exact children_attach nofun
  have htables : s.layout.tables = s₁.layout.tables := by
    rw [hs₁]
    rfl
  rw [← hs₁, htables, ← nameOf_of_labels (labels_of_naming hnaming), ← hash_of_naming hnaming]
  refine ends_registerNames_registers hp₁ (nodup_members hp hb) (fun w hw => ?_) fun w hw => ?_
  · rw [hs₁]
    exact kind_of_member hp hb hw
  · exact scope_of_members hp₁ hplace₁ (hinsts ▸ hw)

theorem ends_moveBlockTo (hs : s.layout.Consistent True) (hb : s.layout.place b = some (.blocks f))
    (hg : s.layout.kind g = some .function) (hne : g ≠ f) :
    Ends (moveBlockTo b g) s
      (fun _ s' => s.MovesBlock s.hash b f g (s.layout.children (.instructions b)) s')
      fun x _ => x = .counterExhausted ∧ ∀ t, s.layout.tables (.function g) = some t →
        ¬ t.CountersSuffice s.hash s.nameOf (b :: s.layout.children (.instructions b)) := by
  unfold moveBlockTo relocateBlock
  rw [ends_bind, ends_lift_ok (Query.blockParent_of_place hb)]
  dsimp only
  rw [if_neg hne.symm]
  refine Ends.bind (((ends_removeBlock hs).and (naming_removeBlock.ends s)).mono (fun _ _ h => h)
    fun _ _ h => absurd hb (h.1.2 f)) ?_
  rintro _ s₁ ⟨⟨hs₁, hdelisted, q, hq, hr₁⟩, hnaming⟩
  obtain rfl := Option.some.inj (hq.symm.trans hb)
  have hkind₁ : s₁.layout.kind = s.layout.kind := hr₁.kind
  have hinsts₁ : s₁.layout.children (.instructions b) = s.layout.children (.instructions b) := by
    rw [hr₁.children]
    exact children_detach nofun
  have hplace₁ : s₁.layout.place b = none := by
    rw [hr₁.place, place_detach_self]
  have htable₁ := tables_target hs hb hne hdelisted
  have hinsert := ends_insertBlock_registers none hs₁.placed (hkind₁ ▸ kind_of_place hb) hplace₁
    (hkind₁ ▸ hg)
  rw [nameOf_of_labels (labels_of_naming hnaming), hash_of_naming hnaming, hinsts₁, htable₁]
    at hinsert
  exact hinsert.mono (fun _ s' h => h.movesBlock hs hb hg hne hdelisted hr₁) fun _ _ h => h

end Edit

namespace Command

/-- In the store that orderly commands leave, a block moves to the end of another function, if that
has a counter left for each of the names that are taken there when their turn comes. -/
theorem movesBlock_afterAll (hash : String → UInt64) (config : Config) {cs : List Command}
    (h : orderly { hash, config } cs = true) {b f g : ValueId} {t : SymbolTable}
    {insts : List ValueId}
    (hb : Query.blockParent b (afterAll { hash, config } cs) = .ok (some f))
    (hg : Query.symbols (.function g) (afterAll { hash, config } cs) = .ok t) (hne : g ≠ f)
    (hinsts : Query.blockInstructions b (afterAll { hash, config } cs) = .ok insts)
    (hcounters : t.CountersSuffice hash (afterAll { hash, config } cs).nameOf (b :: insts)) :
    ∃ s', Edit.moveBlockTo b g (afterAll { hash, config } cs) = .ok () s' ∧
      (afterAll { hash, config } cs).MovesBlock hash b f g insts s' := by
  obtain ⟨hh, hc⟩ := hashed_afterAll h (Store.settled_empty hash config)
    (consistent_empty hash config) (hashed_empty hash config)
  obtain ⟨-, rfl⟩ := Query.blockInstructions_ok.1 hinsts
  have htable := Query.symbols_ok.1 hg
  have hends := Edit.ends_moveBlockTo hc (Query.blockParent_ok.1 hb).2 (Store.tables_function.1 htable).1
    hne
  rw [hh.1] at hends
  obtain ⟨_, s', hrun, hmoves⟩ :=
    (hends.mono (fun _ _ h => h) fun _ _ h => h.2 t htable hcounters).exists_ok
  exact ⟨s', hrun, hmoves⟩

/-- A block with two named instructions and one without a name. The function to which it goes has a
block of its name, and with a counter it takes the name of its first instruction. -/
def clashingMembers : List Command :=
  [.internType .void, .internType (.function ⟨0⟩ []), .createModule "m",
    .createFunction ⟨0⟩ "f" ⟨1⟩, .createFunction ⟨0⟩ "g" ⟨1⟩, .createBlock ⟨0⟩ "b",
    .buildInstruction "add" ⟨0⟩ [] (some "b.1") (.append ⟨2⟩),
    .buildInstruction "add" ⟨0⟩ [] (some "c") (.append ⟨2⟩),
    .buildInstruction "add" ⟨0⟩ [] none (.append ⟨2⟩), .createBlock ⟨1⟩ "b"]

theorem movesBlock_clashingMembers :
    let s := afterAll { config := {} } clashingMembers
    orderly { config := {} } clashingMembers = true ∧
      Query.blockParent ⟨2⟩ s = .ok (some ⟨0⟩) ∧
      Query.symbols (.function ⟨1⟩) s = .ok (s.table (.function ⟨1⟩)) ∧
      (⟨1⟩ : ValueId) ≠ ⟨0⟩ ∧ Query.blockInstructions ⟨2⟩ s = .ok [⟨3⟩, ⟨4⟩, ⟨5⟩] ∧
      (s.table (.function ⟨1⟩)).CountersSuffice nameHash s.nameOf [⟨2⟩, ⟨3⟩, ⟨4⟩, ⟨5⟩] ∧
      ∃ s', Edit.moveBlockTo ⟨2⟩ ⟨1⟩ s = .ok () s' ∧
        s.MovesBlock nameHash ⟨2⟩ ⟨0⟩ ⟨1⟩ [⟨3⟩, ⟨4⟩, ⟨5⟩] s' := by
  intro s
  have horderly : orderly { config := {} } clashingMembers = true := by decide +kernel
  have hb : Query.blockParent ⟨2⟩ s = .ok (some ⟨0⟩) := by decide +kernel
  have hkind : Query.expectKind ⟨1⟩ .function s = .ok () := by decide +kernel
  have hg : Query.symbols (.function ⟨1⟩) s = .ok (s.table (.function ⟨1⟩)) :=
    Query.bind_ok.2 ⟨(), hkind, rfl⟩
  have hinsts : Query.blockInstructions ⟨2⟩ s = .ok [⟨3⟩, ⟨4⟩, ⟨5⟩] := by decide +kernel
  have hcounters : (s.table (.function ⟨1⟩)).CountersSuffice nameHash s.nameOf
      [⟨2⟩, ⟨3⟩, ⟨4⟩, ⟨5⟩] := by
    decide +kernel
  exact ⟨horderly, hb, hg, by decide, hinsts, hcounters,
    movesBlock_afterAll nameHash {} horderly hb hg (by decide) hinsts hcounters⟩

/-- The counter behind the name of the block makes the name of its first instruction, which gets the
next counter for that. -/
example : [⟨2⟩, ⟨3⟩, ⟨4⟩, ⟨5⟩].map
      (afterAll { config := {} } (clashingMembers ++ [.moveBlockTo ⟨2⟩ ⟨1⟩])).nameOf =
    [some "b.1", some "b.1.2", some "c", none] := by
  decide +kernel

end Command

end ShaderIR
