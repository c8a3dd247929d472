/-
Blocks: the steps of a strategy, their written form, and the tokens they refer to.
-/
import StrategyLab.Block.Kind
import StrategyLab.Fault
import StrategyLab.Text.Character

namespace StrategyLab

/-- One step of a strategy. The kind is kept as written, since only execution needs it to be one
of the catalogue. -/
structure Block (α : Type) where
  id : String
  kind : String
  category : Category
  params : Object α
  label : String
  deriving Repr, Inhabited

namespace Block

variable {α : Type} [Scalar α]

/-- The catalogue's kind of a block. -/
def kind? (b : Block α) : Option BlockKind := BlockKind.ofName? b.kind

/-- How messages call a block: by its label if it has one. -/
def displayName (b : Block α) : String := if b.label.isEmpty then b.kind else b.label

/-- The block with some params overridden. -/
def withParams (b : Block α) (overrides : Object α) : Block α :=
  { b with params := b.params.merge overrides }

/-- A param of a block. -/
def param? (b : Block α) (name : String) : Option (Value α) := b.params.get? name

/-! ## Written form -/

/-- The written form of a block. -/
def toValue (b : Block α) : Value α :=
  .record [("id", .text b.id), ("kind", .text b.kind), ("category", .text b.category.name),
    ("label", .text b.label), ("params", .object b.params)]

/-- The first of the values that is present, as text; else the empty text. -/
def presentText (candidates : List (Option (Value α))) : String :=
  match candidates.filterMap fun v => v.filter Value.isPresent with
  | v :: _ => v.shown
  | [] => ""

/-- Reads a block. Its kind may be written as a type; its category is the one of the catalogue
unless it is written. -/
def ofValue (v : Value α) : Except (Fault α) (Block α) := do
  let fields ← Value.asObject v
  let kind := presentText [fields.get? "kind", fields.get? "type"]
  let idValue := Value.ofOption (fields.get? "id")
  if kind.isEmpty then throw (.structural (.blockWithoutKind idValue))
  let known : Option (Value α) :=
    (BlockKind.ofName? kind).map fun k => .text k.category.name
  let categoryName := Text.upper (presentText [fields.get? "category", known])
  match Category.ofName? categoryName with
  | none => throw (.structural (.unknownCategory idValue categoryName))
  | some category =>
    let id ← Value.field fields "id"
    let params ← Value.objectOrEmpty (fields.get? "params")
    pure { id := id.shown, kind, category, params, label := presentText [fields.get? "label"] }

/-- A block of a kind of the catalogue. -/
def make (id kind label : String) (params : Object α) : Except (Fault α) (Block α) :=
  match BlockKind.ofName? kind with
  | none => throw (.structural (.unknownBlockKinds [kind]))
  | some k => pure { id, kind, category := k.category, params, label }

/-- Reads the blocks of a strategy: a list, or an object that has one under `blocks`. -/
def listOfValue (v : Value α) : Except (Fault α) (List (Block α)) := do
  let source := match v with
    | .object fields => (Object.get? fields "blocks").getD (.list [])
    | v => v
  let found ← source.items
  found.mapM ofValue

/-! ## Tokens -/

/-- The params that name a token. -/
def tokenParams : List String := ["asset", "input_token", "output_token", "token0", "token1"]

/-- The tokens that a block refers to. -/
def tokens (b : Block α) : List String :=
  let named := tokenParams.filterMap fun name =>
    ((b.param? name).filter Value.isPresent).map Value.shown
  match b.param? "target_allocation" with
  | some (.object fields) => named ++ fields.map fun (k, _) => k.shown
  | _ => named

/-- Texts without repetition, in the order of their first occurrence. -/
def firstSeen (names : List String) : List String :=
  names.foldl (fun seen name => if seen.contains name then seen else seen ++ [name]) []

/-- The tokens that a strategy refers to, in the order of their first occurrence. -/
def referencedTokens (blocks : List (Block α)) : List String := firstSeen (blocks.flatMap tokens)

end Block

end StrategyLab
