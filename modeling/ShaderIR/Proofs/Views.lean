import ShaderIR.Proofs.Outcome
import ShaderIR.Verifier.Checks

/-! Two views of a store. The core is what the values are, what refers to them and what metadata
says about them. The layout is where the values stand and what they are called. Most edits change
one of them and leave the other as it was. -/

namespace ShaderIR

namespace Arena

variable {e : Entity} {α β : Type}

@[simp] theorem get?_next (a : Arena e α) : a.get? a.next = none :=
  get?_eq_none_of_size_le (Nat.le_refl _)

def map (f : α → β) (a : Arena e α) : Arena e β := ⟨a.cells.map (Option.map f)⟩

theorem get?_map (f : α → β) (a : Arena e α) (i : Index e) :
    (a.map f).get? i = (a.get? i).map f := by
  simp only [get?, map, Array.getElem?_map]
  rcases a.cells[i.index]? with _ | _ | _ <;> rfl

@[simp] theorem size_map (f : α → β) (a : Arena e α) : (a.map f).size = a.size := by
  simp [size, map]

@[simp] theorem next_map (f : α → β) (a : Arena e α) : (a.map f).next = a.next := by
  simp [next]

theorem map_push (f : α → β) (a : Arena e α) (x : α) :
    (a.push x).map f = (a.map f).push (f x) := by
  simp [map, push]

theorem map_erase (f : α → β) (a : Arena e α) (i : Index e) :
    (a.erase i).map f = (a.map f).erase i := by
  simp [map, erase, Array.map_setIfInBounds]

theorem map_modify {f : α → β} {g : α → α} {g' : β → β} (h : ∀ x, f (g x) = g' (f x))
    (a : Arena e α) (i : Index e) : (a.modify i g).map f = (a.map f).modify i g' := by
  simp only [map, modify, mk.injEq]
  refine Array.ext_getElem? fun n => ?_
  simp only [Array.getElem?_map, Array.getElem?_modify]
  split <;> rcases a.cells[n]? with _ | _ | x <;> simp [h]

theorem map_modify_of_eq {f : α → β} {g : α → α} {a : Arena e α} {i : Index e}
    (h : ∀ x, a.get? i = some x → f (g x) = f x) : (a.modify i g).map f = a.map f := by
  obtain ⟨cells⟩ := a
  simp only [get?] at h
  simp only [map, modify, mk.injEq]
  refine Array.ext_getElem? fun n => ?_
  simp only [Array.getElem?_map, Array.getElem?_modify]
  split
  next hn =>
    rw [hn] at h
    rcases hx : cells[n]? with _ | _ | x
    · rfl
    · rfl
    · simp [h x (by simp [hx])]
  next => rfl

theorem eq_of_map {f : α → β} {a a' : Arena e α} (h : a'.map f = a.map f)
    (hx : ∀ i x x', a.get? i = some x → a'.get? i = some x' → f x' = f x → x' = x) : a' = a := by
  obtain ⟨cells⟩ := a
  obtain ⟨cells'⟩ := a'
  simp only [map, mk.injEq] at h ⊢
  refine Array.ext_getElem? fun n => ?_
  have hn := congrArg (·[n]?) h
  have hxn := hx ⟨n⟩
  simp only [Array.getElem?_map] at hn
  simp only [get?] at hxn
  rcases hc : cells[n]? with _ | _ | x <;> rcases hc' : cells'[n]? with _ | _ | x' <;> simp_all

theorem modify_congr {f g : α → α} {a : Arena e α} {i : Index e}
    (h : ∀ x, a.get? i = some x → f x = g x) : a.modify i f = a.modify i g := by
  obtain ⟨cells⟩ := a
  simp only [get?] at h
  simp only [modify, mk.injEq]
  refine Array.ext_getElem? fun n => ?_
  simp only [Array.getElem?_modify]
  split
  next hn =>
    rw [hn] at h
    rcases hx : cells[n]? with _ | _ | x
    · rfl
    · rfl
    · simp [h x (by simp [hx])]
  next => rfl

theorem modify_modify (a : Arena e α) (i : Index e) (f g : α → α) :
    (a.modify i f).modify i g = a.modify i fun x => g (f x) := by
  simp only [modify, mk.injEq]
  refine Array.ext_getElem? fun n => ?_
  simp only [Array.getElem?_modify]
  split <;> rcases a.cells[n]? with _ | _ | x <;> rfl

theorem modify_eq_self {f : α → α} {a : Arena e α} {i : Index e}
    (h : ∀ x, a.get? i = some x → f x = x) : a.modify i f = a := by
  rw [modify_congr (g := id) h]
  refine congrArg mk (Array.ext_getElem? fun n => ?_)
  rw [Array.getElem?_modify, Option.map_id]
  split
  · exact Option.map_id_apply
  · rfl

theorem erase_modify (a : Arena e α) (i : Index e) (g : α → α) :
    (a.modify i g).erase i = a.erase i := by
  simp only [modify, erase, mk.injEq]
  refine Array.ext_getElem? fun n => ?_
  simp only [Array.getElem?_setIfInBounds, Array.getElem?_modify, Array.size_modify]
  split
  · rfl
  · rfl

end Arena

def Payload.bare : Payload → Payload
  | .argument .. => .argument ⟨0⟩ 0
  | .block .. => .block none []
  | .function .. => .function none [] []
  | .global _ => .global none
  | .instruction .. => .instruction none ""
  | .constant data => .constant data
  | .metadata n => .metadata n

def Value.bare (d : Value) : Value :=
  { ty := d.ty, payload := d.payload.bare, attachments := d.attachments }

@[simp] theorem Value.kind_bare (d : Value) : d.bare.kind = d.kind := by
  obtain ⟨_, p, _, _, _⟩ := d
  cases p <;> rfl

theorem Value.bare_payload_metadata {d : Value} {n : NodeId} :
    d.bare.payload = .metadata n ↔ d.payload = .metadata n := by
  obtain ⟨_, p, _, _, _⟩ := d
  cases p <;> simp [bare, Payload.bare]

theorem Value.bare_payload_constant {d : Value} {data : ConstantData} :
    d.bare.payload = .constant data ↔ d.payload = .constant data := by
  obtain ⟨_, p, _, _, _⟩ := d
  cases p <;> simp [bare, Payload.bare]

def Value.wrapped? (d : Value) : Option NodeId :=
  match d.payload with
  | .metadata n => some n
  | _ => none

theorem Value.wrapped?_eq_some {d : Value} {n : NodeId} :
    d.wrapped? = some n ↔ d.payload = .metadata n := by
  obtain ⟨_, p, _, _, _⟩ := d
  cases p <;> simp [wrapped?]

@[simp] theorem Value.wrapped?_bare (d : Value) : d.bare.wrapped? = d.wrapped? := by
  obtain ⟨_, p, _, _, _⟩ := d
  cases p <;> rfl

/-- Constants and the values that wrap metadata stand nowhere and have no name. -/
def ValueKind.isResident : ValueKind → Bool
  | .constant | .metadata => false
  | _ => true

def Value.resident? (d : Value) : Option Value :=
  if d.kind.isResident then some { d with attachments := [] } else none

structure Core where
  types : TypeTable
  values : Arena .value Value
  uses : UseGraph
  constants : Std.ExtTreeMap ConstantKey ValueId
  metadata : Metadata

/-- A list of children of a module, a function or a block. -/
inductive Place
  | functions (m : ModuleId)
  | globals (m : ModuleId)
  | blocks (f : ValueId)
  | instructions (b : ValueId)
  deriving DecidableEq

namespace Payload

def place : Payload → Option Place
  | .block f _ => f.map .blocks
  | .function m _ _ => m.map .functions
  | .global m => m.map .globals
  | .instruction b _ => b.map .instructions
  | _ => none

def position : Payload → Option (ValueId × Nat)
  | .argument f i => some (f, i)
  | _ => none

def arguments : Payload → List ValueId
  | .function _ arguments _ => arguments
  | _ => []

def blocks : Payload → List ValueId
  | .function _ _ blocks => blocks
  | _ => []

def instructions : Payload → List ValueId
  | .block _ insts => insts
  | _ => []

end Payload

/-- The hash under which a named value is entered in its scope. -/
def Value.symbol (d : Value) : Option UInt64 := d.name.map fun _ => d.nameHash

def Value.unattached (d : Value) : Value := { d with attachments := [] }

/-- Where the values stand, and what they are called. -/
@[ext] structure Layout where
  kind : ValueId → Option ValueKind
  place : ValueId → Option Place
  children : Place → List ValueId
  position : ValueId → Option (ValueId × Nat)
  arguments : ValueId → List ValueId
  symbol : ValueId → Option UInt64
  tables : Scope → Option SymbolTable

namespace Store

def core (s : Store) : Core where
  types := s.types
  values := s.values.map Value.bare
  uses := s.uses
  constants := s.constants
  metadata := s.metadata

def resident? (s : Store) (v : ValueId) : Option Value :=
  (s.values.get? v).bind Value.resident?

def childrenAt (s : Store) : Place → List ValueId
  | .functions m => ((s.modules.get? m).map Module.functions).getD []
  | .globals m => ((s.modules.get? m).map Module.globals).getD []
  | .blocks f => ((s.resident? f).map fun d => d.payload.blocks).getD []
  | .instructions b => ((s.resident? b).map fun d => d.payload.instructions).getD []

def layout (s : Store) : Layout where
  kind v := (s.resident? v).map Value.kind
  place v := (s.resident? v).bind fun d => d.payload.place
  children := s.childrenAt
  position v := (s.resident? v).bind fun d => d.payload.position
  arguments v := ((s.resident? v).map fun d => d.payload.arguments).getD []
  symbol v := (s.resident? v).bind Value.symbol
  tables := s.table?

theorem core_modifyValue (s : Store) (v : ValueId) {f f' : Value → Value}
    (h : ∀ d, (f d).bare = f' d.bare) :
    (s.modifyValue v f).core = { s.core with values := s.core.values.modify v f' } := by
  simp only [core, modifyValue, Arena.map_modify h]

theorem core_modifyValue_of_bare (s : Store) (v : ValueId) {f : Value → Value}
    (h : ∀ d, s.values.get? v = some d → (f d).bare = d.bare) :
    (s.modifyValue v f).core = s.core := by
  simp only [core, modifyValue, Arena.map_modify_of_eq h]

theorem payloadIs_eq_any_resident (s : Store) (f : ValueId) :
    s.payloadIs f isFunction = (s.resident? f).any fun d => isFunction d.payload := by
  simp only [payloadIs, resident?]
  cases s.values.get? f with
  | none => rfl
  | some d =>
    obtain ⟨_, p, _, _, _⟩ := d
    cases p <;> rfl

theorem layout_congr {s s' : Store} (hc : s'.config = s.config) (hm : s'.modules = s.modules)
    (hs : ∀ f, s.payloadIs f isFunction → s'.scopes[Scope.function f]? = s.scopes[Scope.function f]?)
    (hs' : ∀ m, s'.scopes[Scope.module m]? = s.scopes[Scope.module m]?)
    (hv : ∀ v, s'.resident? v = s.resident? v) :
    s'.layout = s.layout := by
  have hpayload (f : ValueId) : s'.payloadIs f isFunction = s.payloadIs f isFunction := by
    rw [payloadIs_eq_any_resident, payloadIs_eq_any_resident, hv]
  have htables : s'.table? = s.table? := by
    funext scope
    cases scope with
    | function f =>
      simp only [table?, hpayload]
      split
      next hf => simp only [table, hs f hf, hc]
      next => rfl
    | module m =>
      have hlive : s'.isModuleLive m = s.isModuleLive m := by rw [isModuleLive, hm, isModuleLive]
      simp only [table?, hlive, table, hs' m, hc]
  have hchildren : s'.childrenAt = s.childrenAt := by
    funext p
    cases p <;> simp only [childrenAt, hm, hv]
  simp only [layout, htables, hchildren, hv]

end Store

end ShaderIR
