import ShaderIR.Containers.Module
import ShaderIR.Metadata.Attachments
import ShaderIR.Text.Blank
import ShaderIR.Text.Quoted

/-! The text of functions and modules. A module prints its globals, its functions, its named
metadata, and every metadata node that can be reached from them, in the order of their
indices. Texts are put together from pieces, so that the places where a node is named stay known. -/

namespace ShaderIR

/-- A piece of a text: plain text, or the index of a node, which refers to the node or begins the
line that defines it. -/
inductive Piece
  | plain (text : String)
  | reference (n : NodeId)
  | definition (n : NodeId)
  deriving DecidableEq

namespace Piece

def text : Piece → String
  | plain text => text
  | reference n => n.text
  | definition n => n.text ++ " = "

def reference? : Piece → Option NodeId
  | reference n => some n
  | _ => none

def definition? : Piece → Option NodeId
  | definition n => some n
  | _ => none

end Piece

abbrev Passage := List Piece

namespace Passage

def text (ps : Passage) : String := String.join (ps.map Piece.text)

def references (ps : Passage) : List NodeId := ps.filterMap Piece.reference?

def definitions (ps : Passage) : List NodeId := ps.filterMap Piece.definition?

def separated (separator : String) (passages : List Passage) : Passage :=
  List.intercalate [.plain separator] passages

end Passage

namespace Query

def nameText (sign : String) (v : ValueId) : Query String := do
  match ← name v with
  | some name => return sign ++ name
  | none => return sign ++ v.text

def constantPassage (operandPassage : ValueId → Query Passage) (c : ValueId) : Query Passage := do
  let ty ← typeOf c
  match ← constantData c with
  | some (.int x) => return [.plain ((← typeText ty) ++ " " ++ toString x.toInt)]
  | some .null => return [.plain ((← typeText ty) ++ " null")]
  | some .undefined => return [.plain ((← typeText ty) ++ " undef")]
  | some .blockAddress =>
    let function ← match ← operand c 0 with
      | some f => operandPassage f
      | none => pure [.plain "<empty>"]
    let block ← match ← operand c 1 with
      | some b => nameText "%" b
      | none => pure "<empty>"
    return .plain "blockaddress(" :: function ++ [.plain (", " ++ block ++ ")")]
  | none => return [.plain "?"]

/-- An operand in which constants nest so deep. -/
def operandPassageWithin : Nat → ValueId → Query Passage
  | 0, _ => throw .nestingExhausted
  | depth + 1, v => do
    match ← kind v with
    | .function => return [.plain (← nameText "@" v)]
    | .global => return [.plain (← nameText "@" v)]
    | .argument => return [.plain (← nameText "%" v)]
    | .instruction => return [.plain (← nameText "%" v)]
    | .block => return [.plain ("label " ++ (← nameText "%" v))]
    | .metadata =>
      match ← wrappedNode v with
      | some n => return [.plain "metadata ", .reference n]
      | none => return [.plain "metadata ?"]
    | .constant => constantPassage (operandPassageWithin depth) v

def operandPassage (v : ValueId) : Query Passage := do
  operandPassageWithin ((← read).values.size + 1) v

def slotPassage : Option ValueId → Query Passage
  | some v => operandPassage v
  | none => return [.plain "<empty>"]

def attachmentsPassage (v : ValueId) : Query Passage := do
  let passages ← (← attachments v).mapM fun a => do
    return [.plain (", !" ++ (← tagName a.1) ++ " "), .reference a.2]
  return passages.flatten

/-- What stands in front of an opcode: the name of the instruction, unless it has no result. -/
def resultText (i : ValueId) : Query String := do
  match ← shape (← typeOf i) with
  | .void => return ""
  | _ => return (← nameText "%" i) ++ " = "

def instructionPassage (i : ValueId) : Query Passage := do
  let result ← resultText i
  let opcode ← opcode i
  let tyText ← typeText (← typeOf i)
  let slots ← (← operands i).mapM slotPassage
  let operands := if slots.isEmpty then [] else .plain " " :: Passage.separated ", " slots
  return .plain ("  " ++ result ++ opcode ++ " " ++ tyText) :: operands ++
    (← attachmentsPassage i) ++ [.plain "\n"]

def blockPassage (b : ValueId) : Query Passage := do
  let label ← nameText "" b
  let insts ← (← blockInstructions b).mapM instructionPassage
  return .plain (label ++ ":\n") :: insts.flatten

def argumentText (v : ValueId) : Query String := do
  return (← typeText (← typeOf v)) ++ " " ++ (← nameText "%" v)

def functionPassage (f : ValueId) : Query Passage := do
  let ty ← typeOf f
  let result := match ← shape ty with
    | .function result _ => result
    | _ => ty
  let blocks ← functionBlocks f
  let result ← typeText result
  let name ← nameText "@" f
  let arguments ← (← functionArguments f).mapM argumentText
  let signature := result ++ " " ++ name ++ "(" ++ String.intercalate ", " arguments ++ ")"
  let attached ← attachmentsPassage f
  if blocks.isEmpty then return .plain ("declare " ++ signature) :: attached ++ [.plain "\n"]
  let body ← blocks.mapM blockPassage
  return .plain ("define " ++ signature) :: attached ++ [.plain " \x7b\n"] ++ body.flatten ++
    [.plain "\x7d\n"]

def globalPassage (g : ValueId) : Query Passage := do
  let name ← nameText "@" g
  let ty ← typeOf g
  let content ← match ← initializer g with
    | some init => do
      let tyText ← typeText ty
      pure (.plain (" = global " ++ tyText ++ " ") :: (← operandPassage init))
    | none => do pure [.plain (" = external global " ++ (← typeText ty))]
  return .plain name :: content ++ (← attachmentsPassage g) ++ [.plain "\n"]

def bracedPassage (nodes : List Piece) : Passage :=
  .plain "!\x7b" :: Passage.separated ", " (nodes.map fun p => [p]) ++ [.plain "\x7d"]

def namedPassage (m : ModuleId) (name : String) : Query Passage := do
  return .plain ("!" ++ name ++ " = ") ::
    bracedPassage ((← namedMetadata m name).map .reference) ++ [.plain "\n"]

def nodePiece : Option NodeId → Piece
  | some n => .reference n
  | none => .plain "null"

def nodePassage (n : NodeId) : Query Passage := do
  let d ← node n
  let content ← match d.content with
    | .string text => pure [.plain ("!" ++ Text.quoted text)]
    | .value v => do pure (.plain "value(" :: (← operandPassage v) ++ [.plain ")"])
    | .tuple ops =>
      let storage := match d.storage with
        | .uniqued => ""
        | .distinct => "distinct "
        | .temporary => "temporary "
      pure (.plain storage :: bracedPassage (ops.map nodePiece))
  return .definition n :: content ++ [.plain "\n"]

def attachedNodes (v : ValueId) : Query (List NodeId) := do
  return (← attachments v).map Prod.snd

def instructionNodes (i : ValueId) : Query (List NodeId) := do
  let attached ← attachedNodes i
  let wrapped ← (← operands i).mapM fun
    | some v => wrappedNode v
    | none => pure none
  return attached ++ wrapped.filterMap id

def functionNodes (f : ValueId) : Query (List NodeId) := do
  let attached ← attachedNodes f
  let bodies ← (← functionBlocks f).mapM fun b => do
    return (← (← blockInstructions b).mapM instructionNodes).flatten
  return attached ++ bodies.flatten

/-- The nodes that a module refers to itself. -/
def moduleNodes (m : ModuleId) : Query (List NodeId) := do
  let d ← module m
  let globals ← d.globals.mapM attachedNodes
  let functions ← d.functions.mapM functionNodes
  let named ← (← namedMetadataNames m).mapM (namedMetadata m)
  return globals.flatten ++ functions.flatten ++ named.flatten

/-- Visits nodes in the order of a queue, which the operands of a new node join at its end. -/
def visitNodes : Nat → List NodeId → Std.ExtTreeMap NodeId Unit →
    Query (Std.ExtTreeMap NodeId Unit)
  | _, [], seen => return seen
  | 0, _ :: _, _ => throw .nestingExhausted
  | steps + 1, n :: queue, seen => do
    if seen.contains n then visitNodes steps queue seen
    else
      let ops ← nodeOperands n
      visitNodes steps (queue ++ ops.filterMap id) (seen.insert n ())

/-- The nodes that can be reached from a module, in the order of their indices. Every operand of
every node joins the queue at most once. -/
def reachableNodes (m : ModuleId) : Query (List NodeId) := do
  let roots ← moduleNodes m
  let nodes := (← read).metadata.nodes.toList
  let operands := nodes.flatMap fun n => n.2.content.operands
  let seen ← visitNodes (roots.length + operands.length) roots ∅
  return seen.toList.map Prod.fst

def modulePassage (m : ModuleId) : Query Passage := do
  let d ← module m
  let globals ← d.globals.mapM globalPassage
  let functions ← d.functions.mapM fun f => do return .plain "\n" :: (← functionPassage f)
  let named ← (← namedMetadataNames m).mapM (namedPassage m)
  let nodes ← (← reachableNodes m).mapM nodePassage
  return .plain ("; module " ++ d.name ++ "\n") :: globals.flatten ++ functions.flatten ++
    (if named.isEmpty then [] else [.plain "\n"]) ++ named.flatten ++
    (if nodes.isEmpty then [] else [.plain "\n"]) ++ nodes.flatten

def printFunction (f : ValueId) : Query String := do
  return Text.trimEnd (← functionPassage f).text

def printModule (m : ModuleId) : Query String := do
  return Text.trimEnd (← modulePassage m).text

end Query

end ShaderIR
