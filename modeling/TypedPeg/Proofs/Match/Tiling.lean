import Mathlib.Data.List.Chain
import TypedPeg.Proofs.Match.Discipline
import TypedPeg.Proofs.Match.Settled

/-! Values and the text that they cover. The parts of a value lie side by side from its start to its
end, with at most separators between them, and a leaf shows the text of its span; so without
separators the leaves of a value, left to right, show the text of the whole. -/
namespace TypedPeg

namespace Source

variable {source : Source} {low mid high : Int}

theorem slice_append (nonneg : 0 ≤ low) (first : low ≤ mid) (last : mid ≤ high) :
    source.slice low mid ++ source.slice mid high = source.slice low high := by
  have clipped {i j : Int} (from' : 0 ≤ i) (le : i ≤ j) : source.clip i ≤ source.clip j := by
    rw [clip,clip,if_neg (by omega),if_neg (by omega)]
    omega
  rw [slice,slice,slice,← String.ofList_append,sliceChars,sliceChars,sliceChars,← Array.toList_append,Array.extract_append_extract,
    Nat.min_eq_left (clipped nonneg first),Nat.max_eq_right (clipped (Int.le_trans nonneg first) last)]

theorem slice_self : source.slice low low = "" := by simp [slice,sliceChars]

end Source

theorem NodeTable.Skips.eq_of_nil {table : NodeTable} {source : Source} {c d : Cursor} (skips : table.Skips source c d)
    (none : table.separators = []) : d = c := by
  obtain ⟨frames,active,s,ended⟩ := skips
  exact skip_of_nil none ended

namespace Value

mutual
def contents : Value → String
  | leaf _ _ content => content.getD ""
  | product _ _ fields _ => contentsAll fields
  | variant _ _ _ v => contents v
  | absent _ _ => ""
  | present _ _ v => contents v
  | many _ _ items => contentsAll items
  | bare _ _ => ""

def contentsAll : List Value → String
  | [] => ""
  | v :: rest => contents v ++ contentsAll rest
end

/-- Parts of a whole from its start to its end, with one `next` to another. Without parts the whole
is empty. -/
structure Tiles (next : Value → Value → Prop) (whole : Span) (parts : List Value) : Prop where
  starts : ∀ v ∈ parts.head?, v.span.start = whole.start
  stops : ∀ v ∈ parts.getLast?, v.span.stop = whole.stop
  empty : parts = [] → whole.start = whole.stop
  consecutive : parts.IsChain next

/-- The second value comes after the first, with nothing between them unless separators may stand
there and some were skipped. -/
def Follows (table : NodeTable) (source : Source) (skip : Bool) (v w : Value) : Prop :=
  v.span.stop ≤ w.span.start ∧ (v.span.stop = w.span.start ∨
    skip = true ∧ ∃ c d, c.pos = v.span.stop ∧ d.pos = w.span.start ∧ c.Sound source ∧ table.Skips source c d)

/-- The value and all values in it cover the text as their nodes have it. -/
inductive Tiled (table : NodeTable) (source : Source) : Value → Prop
  | unit {node span} (found : table.get? node.name = some node) (shape : node.body.shape = .leaf .unit)
      (inside : span.Between 0 source.length) (empty : span.start = span.stop) : Tiled table source (.leaf node.name span none)
  | leaf {node span kind} (found : table.get? node.name = some node) (shape : node.body.shape = .leaf kind) (shown : kind ≠ .unit)
      (inside : span.Between 0 source.length) : Tiled table source (.leaf node.name span (some (span.text source)))
  | product {node span fields names skip vs} (found : table.get? node.name = some node) (body : node.body = .product fields names skip)
      (inside : span.Between 0 source.length) (tiles : Tiles (Follows table source skip) span vs)
      (each : ∀ v ∈ vs, Tiled table source v) : Tiled table source (.product node.name span vs names)
  | variant {name i v} (one : Tiled table source v) : Tiled table source (.variant name v.span i v)
  | absent {name span} (inside : span.Between 0 source.length) (empty : span.start = span.stop) : Tiled table source (.absent name span)
  | present {name v} (one : Tiled table source v) : Tiled table source (.present name v.span v)
  | many {node span inner skip vs} (found : table.get? node.name = some node) (body : node.body = .list inner skip)
      (inside : span.Between 0 source.length) (tiles : Tiles (Follows table source skip) span vs)
      (full : ∀ v ∈ vs, v.span.start < v.span.stop) (each : ∀ v ∈ vs, Tiled table source v) :
      Tiled table source (.many node.name span vs)

section Contents
variable {table : NodeTable} {source : Source} {skip : Bool} {whole : Span} {parts : List Value} {v w : Value}

theorem Tiled.between (tiled : v.Tiled table source) : v.span.Between 0 source.length := by
  induction tiled with
  | unit _ _ inside _ => exact inside
  | leaf _ _ _ inside => exact inside
  | product _ _ inside _ _ _ => exact inside
  | variant _ ih => exact ih
  | absent inside _ => exact inside
  | present _ ih => exact ih
  | many _ _ inside _ _ _ _ => exact inside

theorem Follows.touching (follows : Follows table source skip v w) (none : table.separators = []) : v.span.stop = w.span.start := by
  rcases follows.2 with touching | ⟨_,c,d,starts,stops,_,skips⟩
  · exact touching
  · rw [← starts,← stops,skips.eq_of_nil none]

theorem Tiles.tail {next : Value → Value → Prop} (tiles : Tiles next whole (v :: parts))
    (touching : ∀ w, next v w → v.span.stop = w.span.start) : Tiles next ⟨v.span.stop,whole.stop⟩ parts := by
  obtain ⟨close,rest⟩ := List.isChain_cons.1 tiles.consecutive
  refine ⟨fun w first => (touching w (close w first)).symm,fun w last => ?_,fun none => ?_,rest⟩
  · apply tiles.stops w
    rw [Option.mem_def] at last ⊢
    rw [List.getLast?_cons,last,Option.getD_some]
  · subst none
    exact tiles.stops v rfl

theorem Tiles.contents (tiles : Tiles (Follows table source skip) whole parts) (none : table.separators = []) (nonneg : 0 ≤ whole.start)
    (between : ∀ v ∈ parts, v.span.Between 0 source.length) (each : ∀ v ∈ parts, v.contents = v.span.text source) :
    whole.start ≤ whole.stop ∧ contentsAll parts = whole.text source := by
  induction parts generalizing whole with
  | nil =>
    have same := tiles.empty rfl
    rw [contentsAll,Span.text,same,Source.slice_self]
    exact ⟨Int.le_refl _,rfl⟩
  | cons v rest ih =>
    -- the first part, then the tiling of what is left of the whole behind it
    obtain ⟨here,ordered,_⟩ := between v List.mem_cons_self
    have starts := tiles.starts v rfl
    obtain ⟨onward,others⟩ := ih (tiles.tail fun w next => next.touching none) (Int.le_trans here ordered)
      (fun w member => between w (List.mem_cons_of_mem _ member)) fun w member => each w (List.mem_cons_of_mem _ member)
    rw [starts] at ordered
    refine ⟨Int.le_trans ordered onward,?_⟩
    rw [contentsAll,each v List.mem_cons_self,others,Span.text,Span.text,Span.text,starts]
    exact Source.slice_append nonneg ordered onward

theorem Tiled.contents_eq (tiled : v.Tiled table source) (none : table.separators = []) : v.contents = v.span.text source := by
  induction tiled with
  | @unit node span found shape inside empty => rw [contents,Option.getD_none,Value.span,Span.text,empty,Source.slice_self]
  | leaf found shape shown inside => rfl
  | product found body inside tiles each ih =>
    rw [contents]
    exact (tiles.contents none inside.1 (fun v member => (each v member).between) ih).2
  | variant one ih => exact ih
  | @absent name span inside empty => rw [contents,Value.span,Span.text,empty,Source.slice_self]
  | present one ih => exact ih
  | many found body inside tiles full each ih =>
    rw [contents]
    exact (tiles.contents none inside.1 (fun v member => (each v member).between) ih).2

end Contents

end Value

namespace Row

variable {call : String → Cursor → Cursor → Value → Prop} {gap : Cursor → Cursor → Prop} {first : Bool} {names : List String}
  {c d : Cursor} {vs : List Value}

theorem head {v : Value} (row : Row call gap first names c d (v :: vs)) :
    ∃ name c' e, (c' = c ∨ first = false ∧ gap c c') ∧ call name c' e v := by
  cases row with
  | cons apart one others => exact ⟨_,_,_,apart,one⟩

theorem isChain {next : Value → Value → Prop} (row : Row call gap first names c d vs)
    (follows : ∀ {name name' c d d' e v w}, call name c d v → (d' = d ∨ gap d d') → call name' d' e w → next v w) : vs.IsChain next := by
  induction row with
  | nil => exact .nil
  | @cons first name names c c' d e v vs apart one others ih =>
    refine List.isChain_cons.2 ⟨fun w top => ?_,ih⟩
    obtain ⟨rest,rfl⟩ := List.head?_eq_some_iff.1 top
    obtain ⟨name',d',e',between,one'⟩ := others.head
    exact follows one (between.imp_right fun skipped => skipped.2) one'

theorem getLast? {v : Value} (row : Row call gap first names c d vs) (last : vs.getLast? = some v) : ∃ name c, call name c d v := by
  induction row with
  | nil => cases last
  | @cons first name names c c' d e w vs apart one others ih =>
    cases others with
    | nil =>
      cases last
      exact ⟨_,_,one⟩
    | cons apart' one' others' =>
      apply ih
      rwa [List.getLast?_cons_cons] at last

theorem tiles {next : Value → Value → Prop} (row : Row call gap true names c d vs)
    (spans : ∀ {name c d v}, call name c d v → v.span = c.spanTo d)
    (follows : ∀ {name name' c d d' e v w}, call name c d v → (d' = d ∨ gap d d') → call name' d' e w → next v w) :
    Value.Tiles next (c.spanTo d) vs := by
  refine ⟨fun v first => ?_,fun v last => ?_,fun none => ?_,row.isChain follows⟩
  · obtain ⟨rest,rfl⟩ := List.head?_eq_some_iff.1 first
    obtain ⟨name,c',e,apart,one⟩ := row.head
    have same : c' = c := apart.resolve_right fun skipped => Bool.noConfusion skipped.1
    rw [spans one,same]
    rfl
  · obtain ⟨name,c',one⟩ := row.getLast? last
    rw [spans one]
    rfl
  · subst none
    cases row
    rfl

end Row

section Made
variable {table : NodeTable} {source : Source} {c d : Cursor} {v : Value}

theorem Cursor.Reaches.between (reaches : c.Reaches source d) (sound : c.Sound source) : (c.spanTo d).Between 0 source.length :=
  ⟨sound.inside.1,reaches.further,reaches.sound.inside.2⟩

def Manner.covering (table : NodeTable) (source : Source) : Manner :=
  .sound source fun _ c d v => v.span = c.spanTo d ∧ v.Tiled table source

theorem Terminal.pos_of_unit {t : Terminal} {label : String} (unit : t.leafKind = .unit) (moved : t.move source label c = .ok d) :
    d = c := by
  cases t with
  | startOfInput | endOfInput =>
    simp only [move] at moved
    split at moved <;> cases moved
    rfl
  | literal text | caseless text | range lo hi | any | newline | skipUntil strings | peek start stop | drop count => cases unit

theorem Value.tiled_spanLeaf {node : Node} {kind : LeafKind} (found : table.get? node.name = some node)
    (shape : node.body.shape = .leaf kind) (shown : kind ≠ .unit) (sound : c.Sound source) (moved : c.Reaches source d) :
    (Value.spanLeaf source node.name c d).span = c.spanTo d ∧ (Value.spanLeaf source node.name c d).Tiled table source :=
  ⟨rfl,.leaf found shape shown (moved.between sound)⟩

theorem Value.tiled_unitLeaf {node : Node} (found : table.get? node.name = some node) (shape : node.body.shape = .leaf .unit)
    (sound : c.Sound source) : (Value.unitLeaf node.name c).span = c.spanTo c ∧ (Value.unitLeaf node.name c).Tiled table source :=
  ⟨rfl,.unit found shape ((Cursor.Reaches.refl sound).between sound) rfl⟩

theorem Value.follows_of_gap {skip : Bool} {name name' : String} {b b' e : Cursor} {v w : Value}
    (one : (Manner.covering table source).Matches name c b v)
    (between : b' = b ∨ skip = true ∧ (Manner.covering table source).Skipped (table.Skips source) b b')
    (other : (Manner.covering table source).Matches name' b' e w) : Value.Follows table source skip v w := by
  have stops : v.span.stop = b.pos := by rw [one.2.2.1]; rfl
  have starts : w.span.start = b'.pos := by rw [other.2.2.1]; rfl
  rw [Value.Follows,stops,starts]
  rcases between with same | ⟨allowed,sound,moved,skipped⟩
  · subst same
    exact ⟨Int.le_refl _,.inl rfl⟩
  · exact ⟨moved.further,.inr ⟨allowed,b,b',rfl,rfl,sound,skipped⟩⟩

theorem Node.Made.covers {node : Node} (made : node.Made source (Manner.covering table source).Matches
      ((Manner.covering table source).Skipped (table.Skips source)) c d v)
    (found : table.get? node.name = some node) (sound : c.Sound source) : v.span = c.spanTo d ∧ v.Tiled table source := by
  have moved : c.Reaches source d := made.reaches (fun one => one.2.1) (fun skipped => skipped.2.1) sound
  cases made with
  | @terminal t d body terminal =>
    have shape : node.body.shape = .leaf t.leafKind := by rw [body]; rfl
    unfold Terminal.leaf
    cases kind : t.leafKind with
    | unit =>
      obtain rfl := Terminal.pos_of_unit kind terminal
      exact Value.tiled_unitLeaf found (shape.trans (congrArg _ kind)) sound
    | span | char => exact Value.tiled_spanLeaf found shape (by simp [kind]) sound moved
  | lookahead body => exact Value.tiled_unitLeaf found (by rw [body]; rfl) sound
  | atomic body one =>
    have shape : node.body.shape = .leaf .span := by rw [body]; rfl
    exact Value.tiled_spanLeaf found shape nofun sound moved
  | «alias» body one => exact one.2.2
  | scope body one => exact one.2.2
  | restore body one => exact one.2.2
  | push body one => exact one.2.2
  | product body row =>
    refine ⟨rfl,.product found body (moved.between sound) (row.tiles (fun one => one.2.2.1) Value.follows_of_gap) fun v member => ?_⟩
    obtain ⟨name,_,c,d,one⟩ := row.of_mem member
    exact one.2.2.2
  | @sum variants target d v i body chosen one =>
    obtain ⟨_,_,same,tiled⟩ := one
    rw [← same]
    exact ⟨rfl,.variant tiled⟩
  | absent body => exact ⟨rfl,.absent (moved.between sound) rfl⟩
  | present body one =>
    obtain ⟨_,_,same,tiled⟩ := one
    rw [← same]
    exact ⟨rfl,.present tiled⟩
  | list body row =>
    refine ⟨rfl,.many found body (moved.between sound) (row.tiles (fun one => one.1.2.2.1) fun one between other =>
      Value.follows_of_gap one.1 between other.1) (fun v member => ?_) fun v member => ?_⟩
    all_goals obtain ⟨name,_,c,d,one,further⟩ := row.of_mem member
    · have ahead := one.2.1.further
      rw [one.2.2.1]
      exact Int.lt_iff_le_and_ne.2 ⟨ahead,further.symm⟩
    · exact one.2.2.2

end Made

def Record.Covering (table : NodeTable) (source : Source) (r : Record) : Prop := ∀ d v, r.outcome = .matched (d,v) →
  v.span = r.input.spanTo d ∧ v.Tiled table source ∧ (table.separators = [] → v.contents = v.span.text source)

namespace NodeTable

variable {σ : Type} [Observer σ]

/-- Every match made in a run from the start of a text, of what is abandoned too, has a value that
covers the text between the cursors, part by part. -/
theorem calls_covering (table : NodeTable) (source : Source) (frames : Nat) (atomic : Bool) (name : String) (s : σ) :
    let run := (table.recording source frames []).call atomic name .start ⟨s,[]⟩
    (run.1,run.2.state) = (table.calls source frames []).call atomic name .start s ∧ ∀ r ∈ run.2.records, r.Covering table source := by
  refine ⟨recording_call frames [] atomic name .start ⟨s,[]⟩,?_⟩
  have admitted := recording_admits (table.Skips source) (Manner.sound_inside source (Manner.covering table source).call) ?_
    (fun _ _ _ _ _ sound ended => skips_of_skip sound.inside ended) frames [] atomic name Cursor.sound_start s
  · intro r member d v out
    have ended := (admitted r member).2
    rw [out] at ended
    obtain ⟨_,same,tiled⟩ := ended
    exact ⟨same,tiled,tiled.contents_eq⟩
  · intro name node c d v found placed made
    have moved := made.reaches (fun one => one.2.1) (fun skipped => skipped.2.1) placed
    exact ⟨moved,made.covers (by rwa [name_of_get? found]) placed⟩

def spaced : NodeTable :=
  ⟨[⟨"pair","pair",.product ["letter","letter"] ["left","right"] true⟩,⟨"letter","letter",.terminal (.range "a" "z")⟩,
    ⟨"WHITESPACE","WHITESPACE",.terminal (.literal " ")⟩],by decide⟩

theorem spaced_covering :
    let run := (spaced.recording (.ofString "a b") 9 []).call false "pair" .start (⟨(),[]⟩ : Recorded Unit)
    let letters := [Value.leaf "letter" ⟨0,1⟩ (some "a"),.leaf "letter" ⟨2,3⟩ (some "b")]
    let pair : Record := ⟨"pair",.start,.matched (⟨3,[]⟩,.product "pair" ⟨0,3⟩ letters ["left","right"])⟩
    pair ∈ run.2.records ∧ pair.Covering spaced (.ofString "a b") := by
  intro run letters pair
  have member : pair ∈ run.2.records := by decide +kernel
  exact ⟨member,(calls_covering spaced (.ofString "a b") 9 false "pair" ()).2 pair member⟩

end NodeTable

end TypedPeg
