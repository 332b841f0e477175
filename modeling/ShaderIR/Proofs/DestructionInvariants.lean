import ShaderIR.Proofs.Placement
import ShaderIR.Proofs.ReferenceEdits

/-! Invariants that destroying values keeps whatever happens, and replacing them if it answers. They
read a view of the store that shows neither operands nor constants. -/

namespace ShaderIR

namespace Arena

variable {e : Entity} {α β γ : Type}

theorem map_map (a : Arena e α) (f : α → β) (g : β → γ) : (a.map f).map g = a.map (g ∘ f) := by
  simp only [map, Array.map_map, mk.injEq]
  congr 1
  funext o
  cases o <;> rfl

end Arena

/-- The kinds of values, the instructions of blocks and the globals of modules, the nodes and what
they are interned under. -/
structure Ledger where
  values : Arena .value (ValueKind × List ValueId)
  globals : Arena .module (List ValueId)
  nodes : Arena .node Node
  uniqued : Std.ExtTreeMap Content NodeId
  nodeOf : Std.ExtTreeMap ValueId NodeId

def Value.listing (d : Value) : ValueKind × List ValueId := (d.kind, d.payload.instructions)

def Store.ledger (s : Store) : Ledger where
  values := s.values.map Value.listing
  globals := s.modules.map Module.globals
  nodes := s.metadata.nodes
  uniqued := s.metadata.uniqued
  nodeOf := s.metadata.nodeOf

theorem Store.ledger_modifyValue {s : Store} {v : ValueId} {k : Value → Value}
    (h : ∀ d, s.values.get? v = some d → (k d).listing = d.listing) :
    (s.modifyValue v k).ledger = s.ledger := by
  have hvalues : (s.values.modify v k).map Value.listing = s.values.map Value.listing :=
    Arena.map_modify_of_eq h
  simp only [ledger, modifyValue, hvalues]

theorem Store.ledger_modifyModule {s : Store} {m : ModuleId} {k : Module → Module}
    (h : ∀ d, (k d).globals = d.globals) : (s.modifyModule m k).ledger = s.ledger := by
  have hmodules : (s.modules.modify m k).map Module.globals = s.modules.map Module.globals :=
    Arena.map_modify_of_eq fun d _ => h d
  simp only [ledger, modifyModule, hmodules]

instance : Blind Store.ledger where
  value s v k h hi _ := Store.ledger_modifyValue fun d _ => by
    have hk : (k d).kind = d.kind := by rw [← Value.kind_bare, h, Value.kind_bare]
    rw [Value.listing, hk, hi, Value.listing]
  module _ _ _ h := Store.ledger_modifyModule h
  table _ _ _ := rfl
  name s v k h := Store.ledger_modifyValue fun d _ => by
    rw [show (k d).listing = (k d).unlabelled.listing from rfl, h]
    rfl

/-- A view of the store that shows neither operands nor constants, nor who refers to nodes. -/
class Lasting {γ : Type} (view : Store → γ) : Prop extends Unheld view, Untabled view where
  uses : ∀ (s : Store) (g : UseGraph), view { s with uses := g } = view s
  constants : ∀ (s : Store) (t : Std.ExtTreeMap ConstantKey ValueId),
    view { s with constants := t } = view s
  wrappers : ∀ (s : Store) (ws : Std.ExtTreeMap NodeId ValueId),
    view (s.modifyMetadata fun md => { md with wrapperOf := ws }) = view s
  wrapped : ∀ (s : Store) (w : ValueId) (n : NodeId),
    view (s.modifyValue w fun d => match d.payload with
      | .metadata _ => { d with payload := .metadata n }
      | _ => d) = view s

instance : Lasting Store.ledger where
  tracker _ _ := rfl
  handles _ _ := rfl
  tags _ _ := rfl
  attachments _ _ _ := Store.ledger_modifyValue fun _ _ => rfl
  named _ _ _ := Store.ledger_modifyModule fun _ => rfl
  table _ _ _ := rfl
  uses _ _ := rfl
  constants _ _ := rfl
  wrappers _ _ := rfl
  wrapped s w n := Store.ledger_modifyValue fun d _ => by
    obtain ⟨_, p, _, _, _⟩ := d
    cases p <;> rfl

namespace Edit

variable {γ : Type} {view : Store → γ} {u v w old new : ValueId} {n m : NodeId} {l : Location}

section Lasting

theorem fixes_noteBlockAddress {e : EdgeId} {noted : List (ValueId × ConstantKey)} :
    Fixes view (noteBlockAddress e noted) := by
  refine .bind .get fun s => ?_
  dsimp only
  refine .bind .get fun s' => ?_
  split
  · refine .bind (.lift _) fun key => ?_
    split
    · exact .pure _
    · exact .pure _
  · exact .pure _

variable [Lasting view]

theorem Fixes.of_uses {α : Type} {e : Edit α} (h : Fixes Store.unwired e) : Fixes view e :=
  h.of_view fun {s s'} hs => by
    have hunwired (s : Store) : view s.unwired = view s := Lasting.uses s {}
    rw [← hunwired s', hs, hunwired s]

theorem fixes_modifyUses {f : UseGraph → UseGraph} :
    Fixes view (modify (·.modifyUses f) : Edit Unit) :=
  .modify fun s => Lasting.uses s _

theorem fixes_moveEdge {e : EdgeId} : Fixes view (moveEdge new e) :=
  .bind fixes_modifyUses fun _ => .bind (.lift _) fun _ => fixes_modifyUses

theorem fixes_forgetConstant {key : ConstantKey} : Fixes view (forgetConstant key v) :=
  .modify fun s => by
    split
    · exact Lasting.constants s _
    · rfl

theorem fixes_retargetHandle {h : HandleId} : Fixes view (retargetHandle h n) :=
  .bind (.modify fun s => Unheld.handles s (·.set h (some n))) fun _ => fixes_track

theorem fixes_retargetAttachment {tag : TagId} : Fixes view (retargetAttachment v tag n) :=
  .bind (fixes_modifyAttachments (f := fun as => as.map _)) fun _ => fixes_track

theorem fixes_rewrap : Fixes view (modifyValue w fun d => match d.payload with
    | .metadata _ => { d with payload := .metadata n }
    | _ => d) :=
  .bind (.lift _) fun _ => .modify fun s => Lasting.wrapped s w n

theorem fixes_clearAttachments : Fixes view (clearAttachments v) :=
  .bind (.lift _) fun _ => .bind (fixes_modifyAttachments (f := fun _ => [])) fun _ =>
    .forM (fun _ => fixes_untrack) _

theorem fixes_dropWrapper : Fixes view (dropWrapper v) := by
  refine .bind (.lift _) fun n => ?_
  split
  · exact .pure _
  · refine .bind fixes_untrack fun _ => .modify fun s => ?_
    simp only [Store.modifyMetadata]
    split
    · exact Lasting.wrappers s _
    · rfl

end Lasting

/-- What reads nothing but a view is kept by destroying a value if taking away the node that wraps
the value keeps it, and taking away the value does. -/
theorem keeps_destroyValue_of [Lasting view] {I : Store → Prop}
    (hview : ∀ {s s' : Store}, view s' = view s → I s → I s') (hdrop : Keeps I (dropUntrackedNode v))
    (herase : Keeps I (modify fun s => { s with
      values := s.values.erase v
      scopes := s.scopes.erase (.function v) } : Edit Unit)) : Keeps I (destroyValue v) := by
  have hkeeps {α : Type} {e : Edit α} (h : Fixes view e) : Keeps I e := fun s hs =>
    (h.ends s).mono (fun _ _ hv => hview hv hs) fun _ _ hv => hview hv hs
  refine .bind (.lift _) fun kind => .bind (.lift _) fun uses => .guard (.raise _) ?_
  refine .bind hdrop fun _ => .bind (.lift _) fun key => ?_
  have htail : Keeps I (do
      unregisterName v
      modify (·.modifyUses (·.clearSlots v))
      clearAttachments v
      dropWrapper v
      modify fun s => { s with
        values := s.values.erase v
        scopes := s.scopes.erase (.function v) } : Edit Unit) :=
    .bind (hkeeps fixes_unregisterName) fun _ => .bind (hkeeps fixes_modifyUses) fun _ =>
      .bind (hkeeps fixes_clearAttachments) fun _ =>
        .bind (hkeeps fixes_dropWrapper) fun _ => herase
  split
  · exact .bind (hkeeps fixes_forgetConstant) fun _ => htail
  · exact htail

theorem keeps_dropUntrackedNode {I : Store → Prop} (hdrop : Keeps I (dropValueNode v)) :
    Keeps I (dropUntrackedNode v) := by
  refine .bind .get fun s => ?_
  split
  · exact .pure _
  · exact .bind .get fun s' => .guard (.raise _) hdrop

/-- An invariant that reads nothing but a view and that every write into the view keeps. -/
structure Robust (view : Store → γ) (X : Fault → Store → Prop) (I : Store → Prop) : Prop where
  view : ∀ {s s' : Store}, view s' = view s → I s → I s'
  operand : ∀ {n i m}, Carries X I (retargetOperand n i m)
  node : ∀ {s : Store} {old new : ValueId} {n : NodeId}, I s → s.metadata.nodeOf[old]? = some n →
    s.metadata.nodeOf[new]? = none → Ends (do
      modify (·.modifyMetadata fun md => { md with
        nodeOf := (md.nodeOf.erase old).insert new n
        uniqued := (md.uniqued.erase (.value old)).insert (.value new) n })
      modifyNode n fun d => { d with content := .value new }) s (fun _ => I) fun x s' => X x s' → I s'
  drop : ∀ {v}, Keeps I (dropValueNode v)
  erase : ∀ {v : ValueId}, Keeps I (modify fun s => { s with
    values := s.values.erase v
    scopes := s.scopes.erase (.function v) } : Edit Unit)

namespace Robust

variable {X : Fault → Store → Prop} {I : Store → Prop} (hI : Robust view X I)

include hI

theorem keeps {α : Type} {e : Edit α} (h : Fixes view e) : Keeps I e := fun s hs =>
  (h.ends s).mono (fun _ _ hv => hI.view hv hs) fun _ _ hv => hI.view hv hs

theorem carries {α : Type} {e : Edit α} (h : Fixes view e) : Carries X I e :=
  (hI.keeps h).carries

variable [Lasting view]

theorem keeps_destroyValue : Keeps I (destroyValue v) :=
  keeps_destroyValue_of hI.view (keeps_dropUntrackedNode hI.drop) hI.erase

section Nested

variable {nested : ValueId → ValueId → Edit Unit} (hn : ∀ old new, Carries X I (nested old new))

include hn

theorem carries_retargetWrapper : Carries X I (retargetWrapper nested w n m) := by
  refine .bind (hI.carries (.modify fun s => ?_)) fun _ => .bind .get fun s => ?_
  · simp only [Store.modifyMetadata]
    split
    · exact Lasting.wrappers s _
    · rfl
  · split
    · exact .bind (hn _ _) fun _ => hI.keeps_destroyValue.carries
    · exact .bind (hI.carries fixes_rewrap) fun _ => .bind (hI.carries (.modify fun s =>
        Lasting.wrappers s _)) fun _ => hI.carries fixes_track

theorem carries_retarget : Carries X I (retarget nested n m l) := by
  cases l with
  | operand => exact hI.operand
  | wrapper => exact hI.carries_retargetWrapper hn
  | handle => exact hI.carries fixes_retargetHandle
  | attachment => exact hI.carries fixes_retargetAttachment

theorem carries_replaceNodeStep : Carries X I (replaceNodeStep nested n m) := by
  refine .ite (.pure _) (.bind .get fun s => ?_)
  refine .ite (.bind (.raise _) fun _ => ?_) ?_ <;>
  exact .bind (.lift _) fun _ => .bind .get fun s' =>
    .bind (hI.carries fixes_setTracker) fun _ => .forM (fun _ => hI.carries_retarget hn) _

theorem carries_moveValueNode : Carries X I (moveValueNode nested old new) := by
  intro s hs
  unfold moveValueNode
  rw [ends_bind, ends_get]
  dsimp only
  split
  · exact hs
  · exact Carries.bind (hI.carries_replaceNodeStep hn) (fun _ => hI.drop.carries) s hs
  next n hold hnew => exact hI.node hs hold hnew

theorem carries_internBlockAddress {key : ConstantKey} :
    Carries X I (internBlockAddress nested v key) := by
  refine .bind (hI.carries fixes_forgetConstant) fun _ => .bind (.lift _) fun after => ?_
  split
  · refine .bind .get fun s => ?_
    split
    · exact hI.carries (.modify fun s => Lasting.constants s _)
    · exact .ite (.bind (hn _ _) fun _ => hI.keeps_destroyValue.carries)
        (hI.carries (.modify fun s => Lasting.constants s _))
  · exact .pure _

theorem carries_moveEdges {es : List EdgeId} : Carries X I (moveEdges nested new es) := by
  have hnote : Keeps I (es.foldlM (fun noted e => do
      let noted ← noteBlockAddress e noted
      moveEdge new e
      return noted) []) := by
    refine .foldlM (fun noted e => ?_) es []
    exact .bind (hI.keeps fixes_noteBlockAddress) fun _ => .bind (hI.keeps fixes_moveEdge) fun _ =>
      .pure _
  exact .bind hnote.carries fun noted => .forM (fun _ => hI.carries_internBlockAddress hn) noted

theorem carries_replaceStep : Carries X I (replaceStep nested old new) :=
  .ite (.pure _) (.bind (.lift _) fun _ =>
    .bind (.lift _) fun _ => .bind (hI.carries_moveEdges hn) fun _ =>
      hI.carries_moveValueNode hn)

end Nested

theorem carries_replaceWithin (k : Nat) : Carries X I (replaceWithin k old new) := by
  induction k generalizing old new with
  | zero => exact (Keeps.throw _).carries
  | succ k ih => exact hI.carries_replaceStep fun _ _ => ih

theorem carries_replaceAllUses : Carries X I (replaceAllUses old new) :=
  .bind .get fun _ => hI.carries_replaceWithin _

theorem carries_replaceUsesIf {σ : Type} {ask : σ → Use → Bool × σ} {st : σ} :
    Carries X I (replaceUsesIf old new ask st) :=
  .ite (.pure _) (.bind (.lift _) fun _ =>
    .bind (.lift _) fun _ => .bind .get fun _ =>
      .bind .get fun _ =>
        .bind (hI.carries_moveEdges fun _ _ => hI.carries_replaceWithin _) fun _ =>
          .pure _)

theorem carries_replaceNode : Carries X I (replaceNode n m) :=
  .bind .get fun _ =>
    hI.carries_replaceNodeStep fun _ _ => hI.carries_replaceWithin _

end Robust

end Edit

end ShaderIR
