import ShaderIR.Command
import ShaderIR.Proofs.ChildMoves
import ShaderIR.Proofs.Placement

/-! Making modules, functions, globals, blocks and instructions. What is new stands nowhere until it
is attached, and the table of a new scope is empty. -/

namespace ShaderIR

namespace Layout

variable {L : Layout} {v f a : ValueId} {ids : List ValueId} {sc : Scope} {t : SymbolTable}
variable {total : Prop}

theorem Consistent.addTable (h : L.Consistent total) (hsc : L.tables sc = none)
    (ht : ∀ k, t.find? k = none) :
    Consistent { L with tables := Function.update L.tables sc (some t) } total := by
  refine ⟨⟨h.placed.child, h.placed.nodup, h.placed.argument⟩, fun htotal {w h' sc'} hw hn hs => ?_,
    fun {sc' t' h' w} ht' hf => ?_⟩
  · obtain ⟨t', ht', hf⟩ := h.named.entered htotal hw hn hs
    refine ⟨t', ?_, hf⟩
    rw [← ht']
    refine Function.update_of_ne ?_ ..
    rintro rfl
    simp [hsc] at ht'
  · simp only [Function.update_apply] at ht'
    split at ht'
    · obtain rfl := Option.some.inj ht'
      simp [ht] at hf
    · exact h.named.owned ht' hf

theorem Consistent.withKind (h : L.Consistent total) (kind : ValueId → Option ValueKind) :
    Consistent { L with kind := kind } total :=
  ⟨⟨h.placed.child, h.placed.nodup, h.placed.argument⟩, h.named.entered, h.named.owned⟩

def withArguments (L : Layout) (f : ValueId) (ids : List ValueId) : Layout :=
  { L with arguments := Function.update L.arguments f ids }

theorem Consistent.addArgument (h : (L.withArguments f ids).Consistent total)
    (hplace : L.place a = none) (hposition : L.position a = none) (hsymbol : L.symbol a = none)
    (kind : ValueId → Option ValueKind) : Consistent (withArguments { L with
      kind := kind
      position := Function.update L.position a (some (f, ids.length)) } f (ids ++ [a])) total := by
  have hnot (g : ValueId) (i : Nat) : ((L.withArguments f ids).arguments g)[i]? ≠ some a := by
    intro hg
    have hpos : L.position a = some (g, i) := (h.placed.argument a g i).2 hg
    rw [hposition] at hpos
    cases hpos
  have hscope (w : ValueId) (hw : w ≠ a) : (withArguments { L with
      kind := kind
      position := Function.update L.position a (some (f, ids.length)) } f (ids ++ [a])).scope w =
      (L.withArguments f ids).scope w := by
    simp only [scope, withArguments, Function.update_of_ne hw]
  refine ⟨⟨h.placed.child, h.placed.nodup, fun w g i => ?_⟩, fun htotal {w h' sc} hw hn hs => ?_,
    fun {sc t h' w} ht hf => ?_⟩
  · have harg := h.placed.argument w g i
    simp only [withArguments, Function.update_apply] at harg hnot ⊢
    by_cases hwa : w = a
    · subst hwa
      by_cases hgf : g = f
      · subst hgf
        simp only [if_true, Option.some.injEq, Prod.mk.injEq, true_and]
        have hids : ids[i]? ≠ some w := by simpa using hnot g i
        rw [List.getElem?_append]
        split
        next hi => exact iff_of_false (by omega) hids
        next hi =>
          constructor
          · rintro rfl
            simp
          · intro hi'
            obtain ⟨hlt, -⟩ := List.getElem?_eq_some_iff.1 hi'
            simp at hlt
            omega
      · simp only [if_neg hgf, if_true, Option.some.injEq, Prod.mk.injEq]
        refine iff_of_false (fun hfg => hgf hfg.1.symm) ?_
        simpa [hgf] using hnot g i
    · rw [if_neg hwa, harg]
      by_cases hgf : g = f
      · rw [if_pos hgf, if_pos hgf, List.getElem?_append]
        split
        next => rfl
        next hi =>
          have hnone : ids[i]? = none := List.getElem?_eq_none (by omega)
          rw [hnone]
          refine iff_of_false (by simp) fun hi' => hwa ?_
          have hmem := List.mem_of_getElem? hi'
          exact List.mem_singleton.1 hmem
      · rw [if_neg hgf, if_neg hgf]
  · have hw' : w ≠ a := by
      rintro rfl
      rw [show L.symbol w = some h' from hn] at hsymbol
      cases hsymbol
    exact h.named.entered htotal hw hn ((hscope w hw').symm.trans hs)
  · obtain ⟨hw, hn, hs⟩ := h.named.owned ht hf
    have hw' : w ≠ a := by
      rintro rfl
      rw [show L.symbol w = some h' from hn] at hsymbol
      cases hsymbol
    exact ⟨hw, hn, (hscope w hw').trans hs⟩

end Layout

structure Value.Detached (d : Value) : Prop where
  place : d.payload.place = none
  blocks : d.payload.blocks = []
  instructions : d.payload.instructions = []
  arguments : d.payload.arguments = []
  symbol : d.symbol = none

namespace Store

variable {s : Store} {d : Value}

theorem layout_next (s : Store) : s.layout.kind s.values.next = none ∧
    s.layout.place s.values.next = none ∧ s.layout.position s.values.next = none ∧
    s.layout.symbol s.values.next = none := by
  simp [layout, resident?]

theorem layout_pushValue (hr : d.kind.isResident = true) (hd : d.Detached) :
    ∃ tables, (s.pushValue d).2.layout = { s.layout with
      kind := Function.update s.layout.kind s.values.next (some d.kind)
      position := Function.update s.layout.position s.values.next d.payload.position
      tables := tables } ∧
    (∀ sc, sc ≠ .function s.values.next → tables sc = s.layout.tables sc) ∧
    ((∃ t, tables (.function s.values.next) = some t) ↔ d.kind = .function) := by
  have hres (w : ValueId) : (s.pushValue d).2.resident? w =
      if w = s.values.next then some { d with attachments := [] } else s.resident? w := by
    rw [resident?, pushValue, Arena.get?_push, resident?]
    split
    · rw [Option.bind_some, Value.resident?_of_kind hr]
    · rfl
  have hnext : s.resident? s.values.next = none := by simp [resident?]
  have hkind : (s.pushValue d).2.layout.kind =
      Function.update s.layout.kind s.values.next (some d.kind) := by
    funext w
    simp only [layout, hres, Function.update_apply]
    split <;> rfl
  refine ⟨(s.pushValue d).2.layout.tables, Layout.ext hkind ?_ ?_ ?_ ?_ ?_ rfl, ?_, ?_⟩
  · funext w
    simp only [layout, hres]
    split
    next hw => simp [hw, hnext, hd.place]
    next => rfl
  · funext p
    cases p with
    | functions m => rfl
    | globals m => rfl
    | blocks f =>
      simp only [layout, childrenAt, hres]
      split
      next hw => simp [hw, hnext, hd.blocks]
      next => rfl
    | instructions b =>
      simp only [layout, childrenAt, hres]
      split
      next hw => simp [hw, hnext, hd.instructions]
      next => rfl
  · funext w
    simp only [layout, hres, Function.update_apply]
    split <;> rfl
  · funext w
    simp only [layout, hres]
    split
    next hw => simp [hw, hnext, hd.arguments]
    next => rfl
  · funext w
    simp only [layout, hres]
    split
    next hw =>
      rw [hw, hnext]
      exact hd.symbol
    next => rfl
  · intro sc hsc
    refine Option.ext fun t => ?_
    cases sc with
    | module m =>
      rw [tables_module, tables_module]
      rfl
    | function f =>
      rw [tables_function, tables_function, hkind, Function.update_of_ne fun hf => hsc (by rw [hf])]
      rfl
  · simp only [tables_function, hkind, Function.update_self, Option.some.injEq]
    simp

theorem layout_pushValue_of_ne (hr : d.kind.isResident = true) (hd : d.Detached)
    (hk : d.kind ≠ .function) : (s.pushValue d).2.layout = { s.layout with
      kind := Function.update s.layout.kind s.values.next (some d.kind)
      position := Function.update s.layout.position s.values.next d.payload.position } := by
  obtain ⟨tables, hlayout, hother, hfunction⟩ := layout_pushValue (s := s) hr hd
  have htables : tables = s.layout.tables := by
    funext sc
    by_cases hsc : sc = .function s.values.next
    · subst hsc
      have hnone : tables (.function s.values.next) = none := by
        rw [Option.eq_none_iff_forall_ne_some]
        exact fun t ht => hk (hfunction.1 ⟨t, ht⟩)
      have hdead : s.layout.tables (.function s.values.next) = none := by
        rw [Option.eq_none_iff_forall_ne_some]
        intro t ht
        have hkind := (tables_function.1 ht).1
        rw [s.layout_next.1] at hkind
        cases hkind
      rw [hnone, hdead]
    · exact hother sc hsc
  rw [hlayout, htables]

def pushModule (s : Store) (text : String) : Store :=
  { s with
    modules := s.modules.push { name := text }
    scopes := s.scopes.insert (.module s.modules.next) { separator := s.config.nameSeparator } }

theorem layout_pushModule (s : Store) (text : String) : (s.pushModule text).layout =
    { s.layout with
      tables := Function.update s.layout.tables (.module s.modules.next)
        (some { separator := s.config.nameSeparator }) } := by
  have hmodule (m : ModuleId) : (s.pushModule text).modules.get? m =
      if m = s.modules.next then some { name := text } else s.modules.get? m := Arena.get?_push ..
  have htable (sc : Scope) : (s.pushModule text).table sc = if sc = .module s.modules.next then
      { separator := s.config.nameSeparator } else s.table sc := by
    simp only [table, pushModule, getElem?_insert_eq_ite]
    by_cases hsc : sc = .module s.modules.next
    · simp [hsc]
    · simp [hsc, Ne.symm hsc]
  refine Layout.ext rfl rfl ?_ rfl rfl rfl ?_
  · funext p
    cases p with
    | functions m =>
      simp only [layout, childrenAt, hmodule]
      split
      next hm => simp [hm]
      next => rfl
    | globals m =>
      simp only [layout, childrenAt, hmodule]
      split
      next hm => simp [hm]
      next => rfl
    | blocks f => rfl
    | instructions b => rfl
  · funext sc
    refine Option.ext fun t => ?_
    dsimp only
    rw [Function.update_apply]
    cases sc with
    | function f =>
      rw [tables_function, htable, if_neg (by simp), if_neg (by simp), tables_function]
      rfl
    | module m =>
      rw [tables_module, htable, hmodule]
      by_cases hm : m = s.modules.next
      · simp [hm]
      · rw [if_neg hm, if_neg (by simpa using hm), if_neg (by simpa using hm), tables_module]

end Store

namespace Edit

open Store Layout

variable {s : Store} {d : Value} {f b : ValueId} {m : ModuleId} {ty : TypeId} {text : String}
variable {total : Prop}

theorem ends_pushDetached (hs : s.layout.Consistent total) (hr : d.kind.isResident = true)
    (hd : d.Detached) (hk : d.kind ≠ .function) (hpos : d.payload.position = none) :
    Ends (pushValue d) s (fun v s' => s'.layout.Consistent total ∧ s'.layout.scope v = none)
      fun _ _ => False := by
  obtain ⟨-, hplace, hposition, -⟩ := s.layout_next
  have hlayout := layout_pushValue_of_ne (s := s) hr hd hk
  rw [hpos, show Function.update s.layout.position s.values.next none = s.layout.position from
    (Function.update_eq_self_iff ..).2 hposition.symm] at hlayout
  unfold pushValue
  rw [ends_modifyGet, hlayout]
  exact ⟨hs.withKind _, scope_of_unplaced hplace hposition⟩

theorem arranges_createModule : Arranges total (createModule text) := by
  intro s hs
  have hfresh : s.layout.tables (.module s.modules.next) = none := by
    rw [Option.eq_none_iff_forall_ne_some]
    intro t ht
    obtain ⟨⟨dm, hm⟩, -⟩ := tables_module.1 ht
    simp at hm
  unfold createModule
  rw [ends_modifyGet]
  change (s.pushModule text).layout.Consistent total
  rw [layout_pushModule]
  exact hs.addTable hfresh fun k => by simp [SymbolTable.find?]

theorem ends_writeName_detached {v : ValueId} (hs : s.layout.Consistent total)
    (hv : s.layout.scope v = none) : Ends (writeName v text) s
      (fun _ s' => s'.layout.Consistent total) fun _ s' => s'.layout.Consistent total := by
  unfold writeName
  split
  · exact hs
  · rw [ends_bind, ends_get]
    refine Ends.mono (ends_rename s v ?_) ?_ fun _ _ hx => hx.1 ▸ hs
    · exact fun _ => rfl
    · rintro _ s' ⟨o, hlayout, -⟩
      have hn : s.layout.Named total [v] := hs.named.pend fun _ hsc => by
        rw [hv] at hsc
        cases hsc
      rw [hlayout]
      exact ⟨(renamed_symbol _ _).placed hs.placed,
        (hn.rename (List.mem_singleton_self v) o).settle (.inr hv)⟩

theorem arranges_createDetachedBlock : Arranges total (createDetachedBlock text) := by
  intro s hs
  refine Ends.bind (Ends.mono (fixes_internType.ends s) (fun _ _ h => h) ?_) ?_
  · intro _ s' hx _
    rwa [hx]
  · intro ty s₁ hs₁
    refine Ends.bind (Ends.weaken (ends_pushDetached (hs₁ ▸ hs) rfl ⟨rfl, rfl, rfl, rfl, rfl⟩
      (by simp [Value.kind, Payload.kind]) rfl) fun _ _ h => h) ?_
    rintro b s₂ ⟨hs₂, hscope⟩
    exact Ends.bind (Ends.mono (ends_writeName_detached hs₂ hscope) (fun _ _ h => h)
      fun _ _ hx _ => hx) fun _ _ hs₃ => hs₃

theorem arranges_createBlock : Arranges total (createBlock f text) :=
  .bind arranges_createDetachedBlock fun _ => .bind arranges_insertBlock fun _ => .pure _

theorem arranges_createInstruction {opcode : String} {os : List (Option ValueId)} :
    Arranges total (createInstruction opcode ty os) := by
  intro s hs
  refine Ends.bind (Ends.weaken (ends_pushDetached hs rfl ⟨rfl, rfl, rfl, rfl, rfl⟩
    (by simp [Value.kind, Payload.kind]) rfl) fun _ _ h => h) ?_
  rintro i s₁ ⟨hs₁, -⟩
  refine Arranges.of_fixes (.bind (.forM (fun o => ?_) os) fun _ => .pure i) s₁ hs₁
  exact .bind fixes_addOperand.of_unwired fun _ => .pure _

theorem arranges_buildInstruction {opcode : String} {os : List (Option ValueId)}
    {name : Option String} {placement : Placement} :
    Arranges total (buildInstruction opcode ty os name placement) :=
  Carries.buildInstruction arranges_createInstruction arranges_setName arranges_insertInstruction

theorem arranges_createGlobal {o : Option ValueId} : Arranges total (createGlobal m text ty o) := by
  intro s hs
  refine Ends.bind (Ends.weaken (ends_pushDetached hs rfl ⟨rfl, rfl, rfl, rfl, rfl⟩
    (by simp [Value.kind, Payload.kind]) rfl) fun _ _ h => h) ?_
  rintro g s₁ ⟨hs₁, hscope⟩
  refine Ends.bind (Ends.mono (fixes_addOperand.of_unwired.ends s₁) (fun _ _ h => h) ?_) ?_
  · intro _ s' hx _
    rwa [hx]
  intro _ s₂ hs₂
  refine Ends.bind (Ends.mono (ends_writeName_detached (hs₂ ▸ hs₁) (hs₂ ▸ hscope))
    (fun _ _ h => h) fun _ _ hx _ => hx) ?_
  intro _ s₃ hs₃
  exact Arranges.bind arranges_appendGlobal (fun _ => .pure _) s₃ hs₃

section Functions

theorem consistent_pushFunction (hs : s.layout.Consistent total) (ty : TypeId)
    (separator : String) :
    (((s.pushValue { ty := ty, payload := .function none [] [] }).2.setTable
      (.function s.values.next) { separator := separator }).layout.withArguments
        s.values.next []).Consistent total := by
  obtain ⟨tables, hlayout, hother, hfunction⟩ := layout_pushValue (s := s)
    (d := { ty := ty, payload := .function none [] [] }) rfl ⟨rfl, rfl, rfl, rfl, rfl⟩
  obtain ⟨t, ht⟩ := hfunction.2 rfl
  obtain ⟨hkind, -, hposition, -⟩ := s.layout_next
  have hdead : s.layout.tables (.function s.values.next) = none := by
    rw [Option.eq_none_iff_forall_ne_some]
    intro t ht
    have hf := (tables_function.1 ht).1
    rw [hkind] at hf
    cases hf
  have hnil : s.layout.arguments s.values.next = [] := by simp [layout, resident?]
  rw [layout_setTable (by rw [hlayout]; exact ht), hlayout, withArguments]
  dsimp only
  rw [show Function.update s.layout.arguments s.values.next [] = s.layout.arguments from
      (Function.update_eq_self_iff ..).2 hnil.symm,
    show Function.update s.layout.position s.values.next
      (Payload.function none [] []).position = s.layout.position from
        (Function.update_eq_self_iff ..).2 hposition.symm]
  have htables : Function.update tables (.function s.values.next) (some { separator := separator }) =
      Function.update s.layout.tables (.function s.values.next)
        (some { separator := separator }) := by
    funext sc
    simp only [Function.update_apply]
    split
    · rfl
    next hsc => exact hother sc hsc
  rw [htables]
  exact (hs.addTable hdead fun k => by simp [SymbolTable.find?]).withKind _

theorem ends_pushArguments {df : Value} (params : List TypeId)
    (hs : (s.layout.withArguments f []).Consistent total) (hf : s.values.get? f = some df) :
    Ends (params.zipIdx.mapM fun p => pushValue { ty := p.1, payload := .argument f p.2 }) s
      (fun ids s' => (s'.layout.withArguments f ids).Consistent total ∧ s'.values.get? f = some df)
      fun _ _ => False := by
  refine (ends_mapM (fun rest ids s' => (s'.layout.withArguments f ids).Consistent total ∧
    s'.values.get? f = some df ∧ ∃ ps : List TypeId, rest = ps.zipIdx ids.length) ?_ params.zipIdx []
      s ⟨hs, hf, params, rfl⟩).mono (fun ids s' h => ⟨h.1, h.2.1⟩) fun _ _ h => h
  rintro ⟨ty, i⟩ rest ids s₁ ⟨hs₁, hf₁, ps, hps⟩
  cases ps with
  | nil => cases hps
  | cons ty' ps =>
    rw [List.zipIdx_cons] at hps
    obtain ⟨hhead, hrest⟩ := List.cons.inj hps
    obtain ⟨rfl, rfl⟩ := Prod.mk.inj hhead
    obtain ⟨-, hplace, hposition, hsymbol⟩ := s₁.layout_next
    have hlayout := layout_pushValue_of_ne (s := s₁)
      (d := { ty := ty, payload := .argument f ids.length }) rfl ⟨rfl, rfl, rfl, rfl, rfl⟩
      (by simp [Value.kind, Payload.kind])
    unfold pushValue
    rw [ends_modifyGet, hlayout]
    refine ⟨hs₁.addArgument hplace hposition hsymbol _, ?_, ps, ?_⟩
    · rw [Store.pushValue, Arena.get?_push, if_neg]
      · exact hf₁
      · rintro rfl
        simp at hf₁
    · rw [hrest, List.length_append, List.length_singleton]

theorem arranges_createFunction : Arranges total (createFunction m text ty) := by
  intro s hs
  refine ends_bind.2 (ends_lift.2 ⟨fun sh _ => ?_, fun _ _ _ => hs⟩)
  split
  next params hparams =>
    have hs₁ := consistent_pushFunction hs ty s.config.nameSeparator
    rw [ends_bind, pushValue, ends_modifyGet, ends_bind, ends_modify]
    generalize hp₁ : (s.pushValue { ty := ty, payload := .function none [] [] }).2.setTable
      (.function s.values.next) { separator := s.config.nameSeparator } = s₁ at hs₁
    have hf₁ : s₁.values.get? s.values.next =
        some { ty := ty, payload := .function none [] [] } := by
      rw [← hp₁]
      exact (Arena.get?_push ..).trans (if_pos rfl)
    have hs₁' : (s.pushValue { ty := ty, payload := .function none [] [] }).2.setTable
        (.function s.values.next)
        { separator := (s.pushValue { ty := ty, payload := .function none [] [] }).2.config.nameSeparator } =
        s₁ := hp₁
    rw [show (s.pushValue { ty := ty, payload := .function none [] [] }).1 = s.values.next from rfl,
      hs₁']
    refine Ends.bind (Ends.weaken (ends_pushArguments params hs₁ hf₁) fun _ _ h => h) ?_
    rintro ids s₂ ⟨hs₂, hf₂⟩
    rw [ends_bind]
    refine (ends_modifyValue hf₂ _).2 ?_
    generalize hp₃ : (s₂.modifyValue s.values.next fun d =>
      { d with payload := .function none ids [] }) = s₃
    have hlayout : s₃.layout = s₂.layout.withArguments s.values.next ids := by
      rw [← hp₃, layout_modifyValue hf₂ rfl rfl]
      have hblocks : s₂.layout.children (.blocks s.values.next) = [] := layout_blocks hf₂
      have hinsts : s₂.layout.children (.instructions s.values.next) = [] :=
        layout_instructions hf₂
      refine Layout.ext rfl ?_ ?_ ?_ rfl ?_ rfl
      · exact (Function.update_eq_self_iff ..).2 (layout_place hf₂).symm
      · refine (Function.update_eq_self_iff ..).2 ?_ |>.trans
          ((Function.update_eq_self_iff ..).2 hblocks.symm)
        rw [Function.update_of_ne (by simp), hinsts]
        rfl
      · exact (Function.update_eq_self_iff ..).2 (layout_position hf₂).symm
      · exact (Function.update_eq_self_iff ..).2 (layout_symbol hf₂ rfl).symm
    have hscope : s₃.layout.scope s.values.next = none := by
      rw [hlayout]
      exact scope_of_unplaced (layout_place hf₂) (layout_position hf₂)
    refine Ends.bind (Ends.mono (ends_writeName_detached (hlayout ▸ hs₂) hscope)
      (fun _ _ h => h) fun _ _ hx _ => hx) ?_
    intro _ s₄ hs₄
    exact Arranges.bind arranges_appendFunction (fun _ => .pure _) s₄ hs₄
  next => exact fun _ => hs

end Functions

end Edit

end ShaderIR
