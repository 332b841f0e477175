import Mathlib.Logic.Function.Basic
import ShaderIR.Proofs.Views

/-! What a layout has to satisfy. Children and parents name each other, and each list names a child
once. The names of the values that stand in a scope are entered in its table. While a value moves,
some values are pending: their names are in no table. -/

namespace ShaderIR

section Positions

variable {v w : ValueId} {vs : List ValueId}

theorem insertBefore_perm (v : ValueId) (anchor : Option ValueId) (vs : List ValueId) :
    (insertBefore v anchor vs).Perm (v :: vs) := by
  induction vs with
  | nil => exact .refl _
  | cons w rest ih =>
    unfold insertBefore
    split
    · exact .refl _
    · exact (ih.cons w).trans (.swap v w rest)

theorem mem_insertBefore {anchor : Option ValueId} :
    w ∈ insertBefore v anchor vs ↔ w = v ∨ w ∈ vs :=
  (insertBefore_perm v anchor vs).mem_iff.trans List.mem_cons

theorem nodup_insertBefore {anchor : Option ValueId} (h : vs.Nodup) (hv : v ∉ vs) :
    (insertBefore v anchor vs).Nodup :=
  (insertBefore_perm v anchor vs).nodup_iff.2 (List.nodup_cons.2 ⟨hv, h⟩)

theorem mem_without : w ∈ without v vs ↔ w ∈ vs ∧ w ≠ v := by
  simp [without]

theorem nodup_without (h : vs.Nodup) : (without v vs).Nodup := h.filter _

theorem without_append_cons {before after : List ValueId} (h : (before ++ v :: after).Nodup) :
    without v (before ++ v :: after) = before ++ after := by
  obtain ⟨hv, -⟩ := List.nodup_cons.1 (List.perm_middle.nodup_iff.1 h)
  have hkeep {ws : List ValueId} (hws : v ∉ ws) : without v ws = ws :=
    List.filter_eq_self.2 fun w hw => decide_eq_true fun hwv => hws (hwv ▸ hw)
  rw [List.mem_append, not_or] at hv
  rw [without, List.filter_append, List.filter_cons_of_neg (by simp)]
  exact congrArg₂ (· ++ ·) (hkeep hv.1) (hkeep hv.2)

theorem ne_of_next {a : ValueId} {before after : List ValueId}
    (h : (before ++ v :: a :: after).Nodup) : v ≠ a := by
  rintro rfl
  exact (List.nodup_cons.1 (List.nodup_append.1 h).2.1).1 (List.mem_cons_self ..)

theorem insertBefore_without_next {a : ValueId} {before after : List ValueId}
    (h : (before ++ v :: a :: after).Nodup) :
    insertBefore v (some a) (without v (before ++ v :: a :: after)) = before ++ v :: a :: after := by
  have ha : a ∉ before := fun ha =>
    (List.nodup_append.1 h).2.2 a ha a (List.mem_cons_of_mem v (List.mem_cons_self ..)) rfl
  rw [without_append_cons h, insertBefore_append v a before after ha]

theorem insertBefore_without_last {before : List ValueId} (h : (before ++ [v]).Nodup) :
    insertBefore v none (without v (before ++ [v])) = before ++ [v] := by
  rw [without_append_cons h, List.append_nil, insertBefore_none]

end Positions

namespace Place

def owner? : Place → Option ValueId
  | .functions _ | .globals _ => none
  | .blocks v | .instructions v => some v

def childKind : Place → ValueKind
  | .functions _ => .function
  | .globals _ => .global
  | .blocks _ => .block
  | .instructions _ => .instruction

end Place

namespace Layout

variable {L L' : Layout} {v w : ValueId} {p q : Place} {anchor : Option ValueId}
variable {xs ys : List ValueId} {total : Prop}

def scope (L : Layout) (v : ValueId) : Option Scope :=
  match L.place v with
  | some (.functions m) | some (.globals m) => some (.module m)
  | some (.blocks f) => some (.function f)
  | some (.instructions b) =>
    match L.place b with
    | some (.blocks f) => some (.function f)
    | _ => none
  | none => (L.position v).map fun p => .function p.1

/-- Children and parents name each other. -/
structure Placed (L : Layout) : Prop where
  child : ∀ v p, L.place v = some p ↔ v ∈ L.children p
  nodup : ∀ p, (L.children p).Nodup
  argument : ∀ v f i, L.position v = some (f, i) ↔ (L.arguments f)[i]? = some v

/-- Tables and names agree, except that no table knows the pending values. Where the agreement is
not total, tables may lack names of other values too. -/
structure Named (L : Layout) (total : Prop) (pending : List ValueId) : Prop where
  entered : total → ∀ {v h scope}, v ∉ pending → L.symbol v = some h → L.scope v = some scope →
    ∃ t, L.tables scope = some t ∧ t.find? h = some v
  owned : ∀ {scope t h v}, L.tables scope = some t → t.find? h = some v →
    v ∉ pending ∧ L.symbol v = some h ∧ L.scope v = some scope

structure Consistent (L : Layout) (total : Prop) : Prop where
  placed : L.Placed
  named : L.Named total []

structure Renamed (L L' : Layout) : Prop where
  kind : L'.kind = L.kind
  place : L'.place = L.place
  children : L'.children = L.children
  position : L'.position = L.position
  arguments : L'.arguments = L.arguments

theorem Renamed.refl (L : Layout) : L.Renamed L := ⟨rfl, rfl, rfl, rfl, rfl⟩

theorem Renamed.trans {L'' : Layout} (h : L.Renamed L') (h' : L'.Renamed L'') : L.Renamed L'' :=
  ⟨h'.kind.trans h.kind, h'.place.trans h.place, h'.children.trans h.children,
    h'.position.trans h.position, h'.arguments.trans h.arguments⟩

theorem Renamed.scope (h : L.Renamed L') : L'.scope = L.scope := by
  funext v
  simp only [Layout.scope, h.place, h.position]

theorem Renamed.placed (h : L.Renamed L') (hp : L.Placed) : L'.Placed := by
  obtain ⟨-, h₁, h₂, h₃, h₄⟩ := h
  exact ⟨fun v p => by rw [h₁, h₂, hp.child], fun p => by rw [h₂]; exact hp.nodup p,
    fun v f i => by rw [h₃, h₄, hp.argument]⟩

section Moving

def attach (L : Layout) (v : ValueId) (p : Place) (anchor : Option ValueId) : Layout :=
  { L with
    place := Function.update L.place v (some p)
    children := Function.update L.children p (insertBefore v anchor (L.children p)) }

def detach (L : Layout) (v : ValueId) (p : Place) : Layout :=
  { L with
    place := Function.update L.place v none
    children := Function.update L.children p (without v (L.children p)) }

theorem place_attach_self : (L.attach v p anchor).place v = some p := Function.update_self ..

theorem place_attach (h : w ≠ v) : (L.attach v p anchor).place w = L.place w :=
  Function.update_of_ne h ..

theorem place_detach (h : w ≠ v) : (L.detach v p).place w = L.place w := Function.update_of_ne h ..

theorem place_detach_self : (L.detach v p).place v = none := Function.update_self ..

theorem children_attach_self :
    (L.attach v p anchor).children p = insertBefore v anchor (L.children p) := Function.update_self ..

theorem children_detach_self : (L.detach v p).children p = without v (L.children p) :=
  Function.update_self ..

theorem children_attach (h : q ≠ p) : (L.attach v p anchor).children q = L.children q :=
  Function.update_of_ne h ..

theorem children_detach (h : q ≠ p) : (L.detach v p).children q = L.children q :=
  Function.update_of_ne h ..

theorem children_move_source (h : p ≠ q) :
    ((L.detach v p).attach v q anchor).children p = without v (L.children p) := by
  rw [children_attach h, children_detach_self]

theorem children_move_target (h : p ≠ q) :
    ((L.detach v p).attach v q anchor).children q = insertBefore v anchor (L.children q) := by
  rw [children_attach_self, children_detach h.symm]

theorem children_move {r : Place} (hp : r ≠ p) (hq : r ≠ q) :
    ((L.detach v p).attach v q anchor).children r = L.children r :=
  (children_attach hq).trans (children_detach hp)

theorem detach_attach_self (h : L.place v = some p) : (L.detach v p).attach v p anchor =
    { L with children :=
      Function.update L.children p (insertBefore v anchor (without v (L.children p))) } := by
  simp only [attach, detach, Function.update_self, Function.update_idem, mk.injEq, true_and,
    and_true]
  rw [← h, Function.update_eq_self]

theorem detach_attach_eq (h : L.place v = some p)
    (hlist : insertBefore v anchor (without v (L.children p)) = L.children p) :
    (L.detach v p).attach v p anchor = L := by
  rw [detach_attach_self h, hlist, Function.update_eq_self]

theorem Renamed.detach (h : L.Renamed L') : (L.detach v p).Renamed (L'.detach v p) where
  kind := h.kind
  place := by simp only [Layout.detach, h.place]
  children := by simp only [Layout.detach, h.children]
  position := h.position
  arguments := h.arguments

theorem Renamed.attach (h : L.Renamed L') : (L.attach v p anchor).Renamed (L'.attach v p anchor) where
  kind := h.kind
  place := by simp only [Layout.attach, h.place]
  children := by simp only [Layout.attach, h.children]
  position := h.position
  arguments := h.arguments

theorem Placed.attach (h : L.Placed) (hv : L.place v = none) : (L.attach v p anchor).Placed := by
  have hnot (q : Place) : v ∉ L.children q := fun hq => by
    simp [(h.child v q).2 hq] at hv
  refine ⟨fun w q => ?_, fun q => ?_, h.argument⟩
  · simp only [Layout.attach, Function.update_apply]
    by_cases hq : q = p
    · by_cases hw : w = v
      · simp [hq, hw, mem_insertBefore]
      · simp [hq, hw, mem_insertBefore, h.child]
    · by_cases hw : w = v
      · simp [hq, hw, hnot, Ne.symm hq]
      · simp [hq, hw, h.child]
  · simp only [Layout.attach, Function.update_apply]
    split
    · exact nodup_insertBefore (h.nodup p) (hnot p)
    · exact h.nodup q

theorem Placed.detach (h : L.Placed) (hv : L.place v = some p) : (L.detach v p).Placed := by
  refine ⟨fun w q => ?_, fun q => ?_, h.argument⟩
  · simp only [Layout.detach, Function.update_apply]
    by_cases hw : w = v
    · have hq : v ∈ L.children q ↔ p = q := by
        rw [← h.child, hv, Option.some.injEq]
      by_cases hqp : q = p
      · simp [hw, hqp, mem_without]
      · simp [hw, hqp, hq, Ne.symm hqp]
    · by_cases hqp : q = p
      · simp [hw, hqp, mem_without, h.child]
      · simp [hw, hqp, h.child]
  · simp only [Layout.detach, Function.update_apply]
    split
    · exact nodup_without (h.nodup p)
    · exact h.nodup q

theorem scope_of_unplaced (hp : L.place v = none) (hpos : L.position v = none) :
    L.scope v = none := by
  simp [scope, hp, hpos]

theorem scope_of_instructions {b : ValueId} (h : L.place v = some (.instructions b))
    (hb : L.place b = none) : L.scope v = none := by
  simp [scope, h, hb]

theorem scope_congr (hw : w ≠ v) (hi : L.place w ≠ some (.instructions v))
    (hplace : ∀ u, u ≠ v → L'.place u = L.place u) (hpos : L'.position = L.position) :
    L'.scope w = L.scope w := by
  unfold scope
  rw [hplace w hw, hpos]
  split
  · rfl
  · rfl
  · rfl
  next b hb => rw [hplace b fun hbv => hi (hbv ▸ hb)]
  · rfl

theorem scope_attach (hw : w ≠ v) (hi : L.place w ≠ some (.instructions v)) :
    (L.attach v p anchor).scope w = L.scope w :=
  scope_congr hw hi (fun _ hu => Function.update_of_ne hu ..) rfl

theorem scope_detach (hw : w ≠ v) (hi : L.place w ≠ some (.instructions v)) :
    (L.detach v p).scope w = L.scope w :=
  scope_congr hw hi (fun _ hu => Function.update_of_ne hu ..) rfl

theorem scope_detach_attach_self (hv : L.place v = some p) :
    ((L.detach v p).attach v p anchor).scope = L.scope := by
  rw [detach_attach_self hv]
  rfl

theorem scope_attach_instructions {b c : ValueId}
    (hv : L.place v = some (.instructions c) ∨ L.place v = none ∧ L.position v = none ∧
      L.place c = none)
    (hbc : L.place b = L.place c) (hbv : b ≠ v) (hnone : ∀ w, L.place w ≠ some (.instructions v))
    (hother : ∀ w, w ≠ v → L'.place w = L.place w) (hpos : L'.position = L.position) :
    (L'.attach v (.instructions b) anchor).scope = L.scope := by
  have hplace (w : ValueId) (hw : w ≠ v) :
      (L'.attach v (.instructions b) anchor).place w = L.place w :=
    (place_attach hw).trans (hother w hw)
  funext w
  by_cases hw : w = v
  · subst hw
    have hself : (L'.attach w (.instructions b) anchor).place w = some (.instructions b) :=
      place_attach_self
    rcases hv with hc | ⟨hw, hposw, hc⟩
    · simp only [scope, hself, hplace b hbv, hbc, hc]
    · simp only [scope, hself, hplace b hbv, hbc, hc, hw, hposw, Option.map_none]
  · exact scope_congr hw (hnone w) (fun u hu => hplace u hu) hpos

theorem Named.hold (h : L.Named total []) (hs : L'.symbol = L.symbol) (ht : L'.tables = L.tables)
    (hin : ∀ w ∈ xs, L.scope w = none) (hout : ∀ w, w ∉ xs → L'.scope w = L.scope w) :
    L'.Named total xs := by
  refine ⟨fun htotal {w h' scope} hw hn hsc => ?_, fun {scope t h' w} hsc hf => ?_⟩
  · rw [ht]
    rw [hs] at hn
    rw [hout w hw] at hsc
    exact h.entered htotal List.not_mem_nil hn hsc
  · rw [ht] at hsc
    obtain ⟨-, hn, hscope⟩ := h.owned hsc hf
    have hw : w ∉ xs := fun hw => by simp [hin w hw] at hscope
    exact ⟨hw, by rw [hs, hn], by rw [hout w hw, hscope]⟩

theorem Named.release (h : L.Named total xs) (hs : L'.symbol = L.symbol) (ht : L'.tables = L.tables)
    (hin : ∀ w ∈ xs, L'.scope w = none) (hout : ∀ w, w ∉ xs → L'.scope w = L.scope w) :
    L'.Named total [] := by
  refine ⟨fun htotal {w h' scope} _ hn hsc => ?_, fun {scope t h' w} hsc hf => ?_⟩
  · have hw : w ∉ xs := fun hw => by simp [hin w hw] at hsc
    rw [ht]
    rw [hs] at hn
    rw [hout w hw] at hsc
    exact h.entered htotal hw hn hsc
  · rw [ht] at hsc
    obtain ⟨hw, hn, hscope⟩ := h.owned hsc hf
    exact ⟨List.not_mem_nil, by rw [hs, hn], by rw [hout w hw, hscope]⟩

theorem Named.attach (h : L.Named total []) (hp : L.Placed) (hv : L.place v = none)
    (hpos : L.position v = none) :
    (L.attach v p anchor).Named total (v :: L.children (.instructions v)) := by
  refine h.hold rfl rfl (fun w hw => ?_) fun w hw => ?_
  · rw [List.mem_cons] at hw
    rcases hw with rfl | hw
    · exact scope_of_unplaced hv hpos
    · exact scope_of_instructions ((hp.child w _).2 hw) hv
  · rw [List.mem_cons, not_or, ← hp.child] at hw
    exact scope_attach hw.1 hw.2

theorem Named.detach (h : L.Named total xs) (hp : L.Placed) (hpos : L.position v = none)
    (hxs : ∀ w, w ∈ xs ↔ w = v ∨ w ∈ L.children (.instructions v))
    (hself : L.place v ≠ some (.instructions v)) : (L.detach v p).Named total [] := by
  have hv : (L.detach v p).place v = none := Function.update_self ..
  refine h.release rfl rfl (fun w hw => ?_) fun w hw => ?_
  · rcases (hxs w).1 hw with rfl | hw
    · exact scope_of_unplaced hv hpos
    · have hne : w ≠ v := by
        rintro rfl
        exact hself ((hp.child w _).2 hw)
      refine scope_of_instructions (b := v) ?_ hv
      exact (Function.update_of_ne hne ..).trans ((hp.child w _).2 hw)
  · rw [hxs, not_or, ← hp.child] at hw
    exact scope_detach hw.1 hw.2

theorem Named.congr (h : L.Named total xs) (hs : L'.symbol = L.symbol) (ht : L'.tables = L.tables)
    (hscope : L'.scope = L.scope) : L'.Named total xs := by
  refine ⟨fun htotal {w h' scope} hw hn hsc => ?_, fun {scope t h' w} hsc hf => ?_⟩
  · rw [ht]
    exact h.entered htotal hw (hs ▸ hn) (hscope ▸ hsc)
  · rw [hs, hscope]
    exact h.owned (ht ▸ hsc) hf

end Moving

section Naming

variable {sc : Scope} {t : SymbolTable} {h : UInt64}

theorem Named.erase (hL : L.Named total xs) (hn : L.symbol v = some h) (hsc : L.scope v = some sc)
    (ht : L.tables sc = some t) (hf : t.find? h = some v) :
    Named { L with tables := Function.update L.tables sc (some (t.erase h)) } total (v :: xs) := by
  refine ⟨fun htotal {w h' scope} hw hn' hsc' => ?_, fun {scope t' h' w} ht' hf' => ?_⟩
  · rw [List.mem_cons, not_or] at hw
    obtain ⟨t', ht', hf'⟩ := hL.entered htotal hw.2 hn' hsc'
    by_cases hs : scope = sc
    · subst hs
      obtain rfl := Option.some.inj (ht.symm.trans ht')
      refine ⟨t.erase h, Function.update_self .., ?_⟩
      rw [SymbolTable.find?_erase, if_neg]
      · exact hf'
      · rintro rfl
        exact hw.1 (Option.some.inj (hf'.symm.trans hf))
    · exact ⟨t', (Function.update_of_ne hs ..).trans ht', hf'⟩
  · have hold : ∃ t₀, L.tables scope = some t₀ ∧ t₀.find? h' = some w ∧ (w = v → False) := by
      simp only [Function.update_apply] at ht'
      split at ht'
      next hs =>
        obtain rfl := Option.some.inj ht'
        rw [SymbolTable.find?_erase] at hf'
        split at hf'
        · cases hf'
        next hne =>
          refine ⟨t, hs ▸ ht, hf', fun hwv => hne ?_⟩
          have hw := (hL.owned ht hf').2.1
          rw [hwv, hn] at hw
          exact Option.some.inj hw
      next hs =>
        refine ⟨t', ht', hf', fun hwv => hs ?_⟩
        have hw := (hL.owned ht' hf').2.2
        rw [hwv, hsc] at hw
        exact (Option.some.inj hw).symm
    obtain ⟨t₀, ht₀, hf₀, hne⟩ := hold
    obtain ⟨hw, hn', hsc'⟩ := hL.owned ht₀ hf₀
    exact ⟨List.not_mem_cons_of_ne_of_not_mem hne hw, hn', hsc'⟩

theorem Named.pend (hL : L.Named total xs)
    (hv : ∀ {sc t h}, L.symbol v = some h → L.scope v = some sc →
    L.tables sc = some t → t.find? h ≠ some v) : L.Named total (v :: xs) := by
  refine ⟨fun htotal => fun hw => hL.entered htotal (List.not_mem_of_not_mem_cons hw),
    fun {scope t h w} ht hf => ?_⟩
  obtain ⟨hw, hn, hsc⟩ := hL.owned ht hf
  refine ⟨List.not_mem_cons_of_ne_of_not_mem ?_ hw, hn, hsc⟩
  rintro rfl
  exact hv hn hsc ht hf

theorem Named.settle (hL : L.Named total (v :: xs)) (hv : L.symbol v = none ∨ L.scope v = none) :
    L.Named total xs := by
  refine ⟨fun htotal {w h' scope} hw hn hsc => ?_, fun ht hf => ?_⟩
  · refine hL.entered htotal (List.not_mem_cons_of_ne_of_not_mem ?_ hw) hn hsc
    rintro rfl
    rcases hv with hv | hv <;> simp_all
  · obtain ⟨hw, hn, hsc⟩ := hL.owned ht hf
    exact ⟨List.not_mem_of_not_mem_cons hw, hn, hsc⟩

theorem Named.of_not_total (hL : L.Named total xs) (h : ¬ total) : L.Named total [] :=
  ⟨fun htotal => absurd htotal h, fun ht hf => ⟨List.not_mem_nil, (hL.owned ht hf).2⟩⟩

theorem Named.retable (hL : L.Named total xs) (ht : L.tables sc = some t) {t' : SymbolTable}
    (ht' : ∀ k, t'.find? k = t.find? k) :
    Named { L with tables := Function.update L.tables sc (some t') } total xs := by
  refine ⟨fun htotal {w h scope} hw hn hsc => ?_, fun {scope t₁ h w} ht₁ hf => ?_⟩
  · obtain ⟨t₁, ht₁, hf⟩ := hL.entered htotal hw hn hsc
    by_cases hs : scope = sc
    · subst hs
      obtain rfl := Option.some.inj (ht.symm.trans ht₁)
      exact ⟨t', Function.update_self .., (ht' h).trans hf⟩
    · exact ⟨t₁, (Function.update_of_ne hs ..).trans ht₁, hf⟩
  · simp only [Function.update_apply] at ht₁
    split at ht₁
    next hs =>
      obtain rfl := Option.some.inj ht₁
      exact hL.owned (hs ▸ ht) ((ht' h).symm.trans hf)
    next => exact hL.owned ht₁ hf

theorem Named.rename (hL : L.Named total xs) (hv : v ∈ xs) (o : Option UInt64) :
    Named { L with symbol := Function.update L.symbol v o } total xs := by
  have hne {w : ValueId} (hw : w ∉ xs) : Function.update L.symbol v o w = L.symbol w := by
    refine Function.update_of_ne ?_ ..
    rintro rfl
    exact hw hv
  refine ⟨fun htotal => fun hw hn hsc => hL.entered htotal hw ((hne hw).symm.trans hn) hsc,
    fun ht hf => ?_⟩
  obtain ⟨hw, hn, hsc⟩ := hL.owned ht hf
  exact ⟨hw, (hne hw).trans hn, hsc⟩

theorem Named.enter (hL : L.Named total (v :: xs)) (hv : v ∉ xs) (hn : L.symbol v = some h)
    (hsc : L.scope v = some sc) (ht : L.tables sc = some t) (hfree : t.find? h = none)
    {t' : SymbolTable} (ht' : ∀ k, t'.find? k = if h = k then some v else t.find? k) :
    Named { L with tables := Function.update L.tables sc (some t') } total xs := by
  refine ⟨fun htotal {w h' scope} hw hn' hsc' => ?_, fun {scope t₁ h' w} ht₁ hf => ?_⟩
  · by_cases hwv : w = v
    · subst hwv
      obtain rfl := Option.some.inj (hn.symm.trans hn')
      obtain rfl := Option.some.inj (hsc.symm.trans hsc')
      exact ⟨t', Function.update_self .., by rw [ht', if_pos rfl]⟩
    · obtain ⟨t₁, ht₁, hf⟩ := hL.entered htotal (List.not_mem_cons_of_ne_of_not_mem hwv hw) hn' hsc'
      by_cases hs : scope = sc
      · subst hs
        obtain rfl := Option.some.inj (ht.symm.trans ht₁)
        refine ⟨t', Function.update_self .., ?_⟩
        rw [ht', if_neg]
        · exact hf
        · rintro rfl
          simp [hfree] at hf
      · exact ⟨t₁, (Function.update_of_ne hs ..).trans ht₁, hf⟩
  · have hold {t₀ : SymbolTable} (ht₀ : L.tables scope = some t₀) (hf₀ : t₀.find? h' = some w) :
        w ∉ xs ∧ L.symbol w = some h' ∧ L.scope w = some scope := by
      obtain ⟨hw, hn', hsc'⟩ := hL.owned ht₀ hf₀
      exact ⟨List.not_mem_of_not_mem_cons hw, hn', hsc'⟩
    simp only [Function.update_apply] at ht₁
    split at ht₁
    next hs =>
      obtain rfl := Option.some.inj ht₁
      rw [ht'] at hf
      split at hf
      next hh =>
        obtain rfl := Option.some.inj hf
        exact ⟨hv, hh ▸ hn, hs ▸ hsc⟩
      next => exact hold (hs ▸ ht) hf
    next => exact hold ht₁ hf

end Naming

section Dropping

variable {D : List ValueId} {sc : Scope}

def drop (L : Layout) (D : List ValueId) : Layout where
  kind v := if v ∈ D then none else L.kind v
  place v := if v ∈ D then none else L.place v
  children
    | .functions m => L.children (.functions m)
    | .globals m => L.children (.globals m)
    | .blocks f => if f ∈ D then [] else L.children (.blocks f)
    | .instructions b => if b ∈ D then [] else L.children (.instructions b)
  position v := if v ∈ D then none else L.position v
  arguments v := if v ∈ D then [] else L.arguments v
  symbol v := if v ∈ D then none else L.symbol v
  tables
    | .function f => if f ∈ D then none else L.tables (.function f)
    | .module m => L.tables (.module m)

theorem drop_drop (L : Layout) (v : ValueId) (D : List ValueId) :
    (L.drop [v]).drop D = L.drop (v :: D) := by
  have hite {α : Type} (w : ValueId) (x y : α) :
      (if w ∈ D then x else if w ∈ [v] then x else y) = if w ∈ v :: D then x else y := by
    by_cases hw : w ∈ D
    · rw [if_pos hw, if_pos (List.mem_cons_of_mem v hw)]
    · by_cases hwv : w = v
      · rw [if_neg hw, if_pos (List.mem_singleton.2 hwv), if_pos (List.mem_cons.2 (.inl hwv))]
      · rw [if_neg hw, if_neg (mt List.mem_singleton.1 hwv),
          if_neg (List.not_mem_cons_of_ne_of_not_mem hwv hw)]
  simp only [drop, hite]

/-- Values that go together: with each of them what stands in it, and nothing else that stands
somewhere. -/
structure Closed (L : Layout) (D : List ValueId) : Prop where
  child : ∀ {v p}, L.place v = some p → (v ∈ D ↔ ∃ w ∈ D, p.owner? = some w)
  argument : ∀ {v f i}, L.position v = some (f, i) → (v ∈ D ↔ f ∈ D)

theorem children_drop (h : ¬ ∃ w ∈ D, p.owner? = some w) :
    (L.drop D).children p = L.children p := by
  cases p with
  | functions m => rfl
  | globals m => rfl
  | blocks f => exact if_neg fun hf => h ⟨f, hf, rfl⟩
  | instructions b => exact if_neg fun hb => h ⟨b, hb, rfl⟩

theorem children_drop_of_owner (h : ∃ w ∈ D, p.owner? = some w) : (L.drop D).children p = [] := by
  obtain ⟨w, hw, hp⟩ := h
  cases p with
  | functions m => cases hp
  | globals m => cases hp
  | blocks f => exact if_pos (Option.some.inj hp ▸ hw)
  | instructions b => exact if_pos (Option.some.inj hp ▸ hw)

theorem Placed.drop (h : L.Placed) (hD : L.Closed D) : (L.drop D).Placed := by
  refine ⟨fun v p => ?_, fun p => ?_, fun v f i => ?_⟩
  · have hplace : (L.drop D).place v = some p ↔ v ∉ D ∧ L.place v = some p := by
      by_cases hv : v ∈ D <;> simp [Layout.drop, hv]
    rw [hplace]
    by_cases hp : ∃ w ∈ D, p.owner? = some w
    · rw [children_drop_of_owner hp]
      exact iff_of_false (fun h => h.1 ((hD.child h.2).2 hp)) List.not_mem_nil
    · rw [children_drop hp, ← h.child]
      exact ⟨And.right, fun hvp => ⟨fun hv => hp ((hD.child hvp).1 hv), hvp⟩⟩
  · by_cases hp : ∃ w ∈ D, p.owner? = some w
    · rw [children_drop_of_owner hp]
      exact List.nodup_nil
    · rw [children_drop hp]
      exact h.nodup p
  · have hpos : (L.drop D).position v = some (f, i) ↔ v ∉ D ∧ L.position v = some (f, i) := by
      by_cases hv : v ∈ D <;> simp [Layout.drop, hv]
    have hargs : ((L.drop D).arguments f)[i]? = some v ↔ f ∉ D ∧ (L.arguments f)[i]? = some v := by
      by_cases hf : f ∈ D <;> simp [Layout.drop, hf]
    rw [hpos, hargs, ← h.argument]
    exact and_congr_left fun hv => not_congr (hD.argument hv)

theorem scope_drop (h : (L.drop D).scope v = some sc) : v ∉ D ∧ L.scope v = some sc := by
  by_cases hv : v ∈ D
  · simp [scope, drop, hv] at h
  · refine ⟨hv, ?_⟩
    rw [← h]
    simp only [scope, drop, if_neg hv]
    split
    · rfl
    · rfl
    · rfl
    next b hb =>
      by_cases hbD : b ∈ D
      · simp [scope, drop, hv, hb, hbD] at h
      · rw [if_neg hbD]
    · rfl

theorem Closed.scope (hD : L.Closed D) (hv : v ∈ D) (h : L.scope v = some sc) :
    ∃ f ∈ D, sc = .function f := by
  unfold Layout.scope at h
  split at h
  next m hp =>
    obtain ⟨_, _, ho⟩ := (hD.child hp).1 hv
    cases ho
  next m hp =>
    obtain ⟨_, _, ho⟩ := (hD.child hp).1 hv
    cases ho
  next f hp =>
    obtain ⟨w, hw, ho⟩ := (hD.child hp).1 hv
    exact ⟨f, Option.some.inj ho ▸ hw, (Option.some.inj h).symm⟩
  next b hp =>
    obtain ⟨w, hw, ho⟩ := (hD.child hp).1 hv
    split at h
    next f hb =>
      obtain ⟨w', hw', ho'⟩ := (hD.child hb).1 (Option.some.inj ho ▸ hw)
      exact ⟨f, Option.some.inj ho' ▸ hw', (Option.some.inj h).symm⟩
    next => cases h
  next hp =>
    obtain ⟨⟨f, i⟩, hpos, rfl⟩ := Option.map_eq_some_iff.1 h
    exact ⟨f, (hD.argument hpos).1 hv, rfl⟩

theorem Closed.scope_stays (hD : L.Closed D) (hv : v ∉ D) {f : ValueId}
    (h : (L.drop D).scope v = some (.function f)) : f ∉ D := by
  intro hf
  unfold Layout.scope at h
  simp only [Layout.drop, if_neg hv] at h
  split at h
  next => simp at h
  next => simp at h
  next g hp =>
    obtain rfl := Scope.function.inj (Option.some.inj h)
    exact hv ((hD.child hp).2 ⟨g, hf, rfl⟩)
  next b hp =>
    have hb : b ∉ D := fun hb => hv ((hD.child hp).2 ⟨b, hb, rfl⟩)
    rw [if_neg hb] at h
    split at h
    next g hbp =>
      obtain rfl := Scope.function.inj (Option.some.inj h)
      exact hb ((hD.child hbp).2 ⟨g, hf, rfl⟩)
    next => cases h
  next =>
    obtain ⟨⟨g, i⟩, hpos, hg⟩ := Option.map_eq_some_iff.1 h
    obtain rfl := Scope.function.inj hg
    exact hv ((hD.argument hpos).2 hf)

theorem Named.drop (h : L.Named total []) (hD : L.Closed D) : (L.drop D).Named total [] := by
  refine ⟨fun htotal {v h' sc} _ hn hsc => ?_, fun {sc t h' v} ht hf => ?_⟩
  · obtain ⟨hv, hsc'⟩ := scope_drop hsc
    obtain ⟨t, ht, hf⟩ :=
      h.entered htotal List.not_mem_nil (by simpa [Layout.drop, hv] using hn) hsc'
    refine ⟨t, ?_, hf⟩
    cases sc with
    | module m => exact ht
    | function f => exact (if_neg (hD.scope_stays hv hsc)).trans ht
  · have hold : L.tables sc = some t ∧ ∀ f, sc = .function f → f ∉ D := by
      cases sc with
      | module m => exact ⟨ht, fun f hf => by cases hf⟩
      | function f =>
        by_cases hfD : f ∈ D
        · simp [Layout.drop, hfD] at ht
        · refine ⟨by simpa [Layout.drop, hfD] using ht, ?_⟩
          rintro _ ⟨⟩
          exact hfD
    obtain ⟨-, hn, hsc⟩ := h.owned hold.1 hf
    have hv : v ∉ D := by
      intro hv
      obtain ⟨f, hfD, rfl⟩ := hD.scope hv hsc
      exact hold.2 f rfl hfD
    refine ⟨List.not_mem_nil, (if_neg hv).trans hn, ?_⟩
    rw [← hsc]
    simp only [Layout.scope, Layout.drop, if_neg hv]
    split
    · rfl
    · rfl
    · rfl
    next b hb =>
      rw [if_neg fun hbD => hv ((hD.child hb).2 ⟨b, hbD, rfl⟩)]
    · rfl

theorem Named.dropOne (h : L.Named total xs) (hv : v ∈ xs)
    (hnone : ∀ w, L.place w ≠ some (.instructions v)) : (L.drop [v]).Named False xs := by
  refine ⟨False.elim, fun {sc t h' w} ht hf => ?_⟩
  have hold : L.tables sc = some t := by
    cases sc with
    | module m => exact ht
    | function f =>
      rw [show (L.drop [v]).tables (.function f) = if f ∈ [v] then none else
        L.tables (.function f) from rfl] at ht
      split at ht
      · cases ht
      · exact ht
  obtain ⟨hw, hn, hsc⟩ := h.owned hold hf
  have hwv : w ∉ [v] := fun hwv => hw (List.mem_singleton.1 hwv ▸ hv)
  refine ⟨hw, (if_neg hwv).trans hn, ?_⟩
  rw [← hsc]
  simp only [Layout.scope, Layout.drop, if_neg hwv]
  split
  · rfl
  · rfl
  · rfl
  next b hb =>
    rw [if_neg]
    rintro hbv
    exact hnone w (hb.trans (congrArg _ (congrArg _ (List.mem_singleton.1 hbv))))
  · rfl

theorem Consistent.drop (h : L.Consistent total) (hD : L.Closed D) : (L.drop D).Consistent total :=
  ⟨h.placed.drop hD, h.named.drop hD⟩

end Dropping

end Layout

end ShaderIR
