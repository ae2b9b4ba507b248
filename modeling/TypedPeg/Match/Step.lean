import TypedPeg.Match.Run
import TypedPeg.Match.Terminal

/-! One node at work. A body reaches other nodes only through the calls it is given,
so what calls cost and which of them are refused is decided elsewhere. -/
namespace TypedPeg

/-- What a node may do with others. The flag is the atomic flag. -/
structure Calls (σ : Type) where
  call : Bool → String → Cursor → Run σ (Cursor × Value)
  /-- A call for which the atomic flag is set anew. -/
  within : Bool → String → Cursor → Run σ (Cursor × Value)
  /-- Moves past separators. -/
  skip : Bool → Cursor → Run σ Cursor

def Calls.gap {σ : Type} (calls : Calls σ) (allowed atomic : Bool) (input : Cursor) : Run σ Cursor :=
  if allowed then calls.skip atomic input else return input

namespace Node

variable {σ : Type} [Observer σ]

def elements (calls : Calls σ) (skip atomic : Bool) : List String → Cursor → Run σ (Cursor × List Value)
  | [], input => return (input,[])
  | name :: rest, input => do
    let input ← calls.gap skip atomic input
    let (input,value) ← calls.call atomic name input
    let (input,values) ← elements calls skip atomic rest input
    return (input,value :: values)

/-- Matches a sequence. There are no separators before its first element. -/
def sequence (calls : Calls σ) (skip atomic : Bool) : List String → Cursor → Run σ (Cursor × List Value)
  | [], input => return (input,[])
  | name :: rest, input => do
    let (input,value) ← calls.call atomic name input
    let (input,values) ← elements calls skip atomic rest input
    return (input,value :: values)

/-- Tries the alternatives from an index on. The failures are merged into `far`. -/
def alternatives (calls : Calls σ) (atomic : Bool) (label : String) (input : Cursor) :
    List String → Int → Furthest → Run σ (Cursor × Int × Value)
  | [], _, far => .raise (far.ofChoice label)
  | name :: rest, index, far => do
    match ← (calls.call atomic name input).attempt with
    | .ok (after,value) => return (after,index,value)
    | .error f => alternatives calls atomic label input rest (index + 1) (far.note f)

/-- Matches as often as possible, at most `rounds` times. The separators before an attempt that
fails or makes no progress are given back. Items come newest first. -/
def repetition (calls : Calls σ) (skip atomic : Bool) (inner : String) :
    Nat → Cursor → List Value → Run σ (Cursor × List Value)
  | 0, input, items => return (input,items)
  | rounds + 1, input, items => do
    let start ← calls.gap (skip && !items.isEmpty) atomic input
    match ← (calls.call atomic inner start).attempt with
    | .error _ => return (input,items)
    | .ok (after,value) =>
      if after.pos = start.pos then return (input,items)
      else repetition calls skip atomic inner rounds after (value :: items)

def step (source : Source) (calls : Calls σ) (atomic : Bool) (node : Node) (input : Cursor) :
    Run σ (Cursor × Value) :=
  match node.body with
  | .declared => .halt .notRunnable
  | .terminal t =>
    match t.move source node.label input with
    | .ok after => return (after,t.leaf source node.name input after)
    | .error f => .fail f
  | .lookahead inner true => do
    match ← ((calls.call atomic inner input).attempt).hushed .negation with
    | .error _ => return (input,.unitLeaf node.name input)
    | .ok _ => .fail ⟨.lookahead,"negative lookahead matched",input.pos,[node.label]⟩
  | .lookahead inner false => do
    match ← (calls.call atomic inner input).attempt with
    | .ok _ => return (input,.unitLeaf node.name input)
    | .error f => .raise ⟨.lookahead,"positive lookahead failed",input.pos,f.expected⟩
  | .atomic body => do
    let (after,_) ← calls.within true body input
    return (after,.spanLeaf source node.name input after)
  | .alias target => calls.call atomic target input
  | .scope body flag => calls.within flag body input
  | .restore inner => calls.call atomic inner input
  | .push inner => do
    let (after,value) ← calls.call atomic inner input
    return (after.push (input.spanTo after),value)
  | .product fields names skip => do
    let (after,values) ← sequence calls skip atomic fields input
    return (after,.product node.name (input.spanTo after) values names)
  | .sum variants => do
    let (after,index,value) ← alternatives calls atomic node.label input variants 0 (.start input.pos)
    return (after,.variant node.name (input.spanTo after) index value)
  | .optional inner => do
    match ← (calls.call atomic inner input).attempt with
    | .ok (after,value) => return (after,.present node.name (input.spanTo after) value)
    | .error _ => return (input,.absent node.name (input.spanTo input))
  | .list inner skip => do
    let (after,items) ← repetition calls skip atomic inner (input.ahead source + 2) input []
    return (after,.many node.name (input.spanTo after) items.reverse)

end Node

end TypedPeg
