import TypedPeg.Proofs.Match.Translation
import TypedPeg.Proofs.Match.Yields
import TypedPeg.Proofs.Source.Occurrence
import TypedPeg.Proofs.Source.Stack

/-! Texts matched again. What comes to neither a push nor a drop gives the stack back as it found it, so a span that was
pushed before it is on top after it, and the text that is then asked for is the text that was matched. -/
namespace TypedPeg

section Top
variable {stack : List Span} {top : Span} {source : Source} {label : String} {c d : Cursor}

theorem Stack.slice?_top (stack : List Span) (top : Span) : slice? (stack ++ [top]) (-1) none = some [top] := by
  have depth : (stack ++ [top]).length = stack.length + 1 := by rw [List.length_append,List.length_singleton]
  have last : index (stack ++ [top]).length (-1) = stack.length := by
    rw [index,if_pos (by decide),depth]
    omega
  unfold slice?
  dsimp only
  rw [last,if_neg (by omega),Int.toNat_natCast,List.drop_left,depth]
  congr 1
  exact List.take_of_length_le (by rw [List.length_singleton]; omega)

theorem Stack.drop?_top (stack : List Span) (top : Span) : drop? (stack ++ [top]) 1 = some stack := by
  have depth : (stack ++ [top]).length = stack.length + 1 := by rw [List.length_append,List.length_singleton]
  have kept : (((stack ++ [top]).length : Int) - 1).toNat = stack.length := by omega
  rw [drop?,if_neg (by omega),kept,List.take_left]

theorem Terminal.stack_eq_of_move {t : Terminal} (moved : t.move source label c = .ok d) (kept : ∀ count, t ≠ .drop count) :
    d.stack = c.stack := by
  cases t with
  | drop count => exact (kept count rfl).elim
  | skipUntil strings =>
    cases moved
    rfl
  | literal text | caseless text | any | startOfInput | endOfInput | newline =>
    simp only [move] at moved
    split at moved <;> cases moved
    rfl
  | range lo hi | peek start stop =>
    simp only [move] at moved
    split at moved
    · cases moved
    · split at moved <;> cases moved
      rfl

/-- The text on top of the stack is asked for at a cursor inside the text. -/
theorem Terminal.move_top (topped : c.stack = stack ++ [top]) (inside : c.pos ≤ source.length) (label : String) :
    (top.chars source <+: (c.rest source).toList →
      (Terminal.peek (-1) none).move source label c = .ok (c.advance (top.chars source).length)) ∧
    (¬top.chars source <+: (c.rest source).toList →
      ∃ msg, (Terminal.peek (-1) none).move source label c = .error ⟨.stack,msg,c.pos,[label]⟩) := by
  have entry : Stack.chars source [top] = top.chars source := List.flatMap_singleton _ _
  rw [move,topped,Stack.slice?_top]
  dsimp only
  rw [entry,← Cursor.startsWith_iff inside]
  constructor
  · intro starts
    rw [if_pos starts]
  · intro differs
    rw [if_neg differs]
    exact ⟨_,rfl⟩

end Top

def Manner.level : Manner where
  placed _ := True
  onward c d := d.stack = c.stack
  call _ _ _ _ := True
  refl _ := rfl
  trans first second := second.trans first
  arrives _ _ := trivial

def Manner.neutral (table : NodeTable) (root : String) : Manner where
  placed _ := True
  onward _ _ := True
  call name c d _ := table.Reachable root name → d.stack = c.stack
  refl _ := trivial
  trans _ _ := trivial
  arrives _ _ := trivial

namespace NodeTable

/-- Nothing that a match from one node can come to pushes or drops. -/
def Neutral (table : NodeTable) (root : String) : Prop :=
  ∀ name node, table.Reachable root name → table.get? name = some node →
    (∀ inner, node.body ≠ .push inner) ∧ ∀ count, node.body ≠ .terminal (.drop count)

variable {table : NodeTable} {source : Source} {atomic : Bool} {root name : String} {c d : Cursor} {v : Value}
  {o : Outcome (Cursor × Value)}

theorem calls_neutral {σ : Type} [Observer σ] (neutral : table.Neutral root) (none : table.separators = []) (source : Source) (frames : Nat)
    (active : List Entry) (atomic : Bool) :
    (table.calls source frames active : Calls σ).Mannerly (Manner.neutral table root).unseen (fun c d => d = c) atomic := by
  refine calls_mannerly (fun {name node c d v} found _ made => ⟨trivial,fun reached => ?_⟩) frames active atomic
    fun _ _ _ _ _ => skip_of_nil none
  obtain ⟨pushless,dropless⟩ := neutral name node reached found
  show Manner.level.onward c d
  refine made.onward (fun called one => ?_) (fun skipped => ?_) (fun body moved => ?_) (fun body => (pushless _ body).elim) trivial
  · exact one.2.2 (reached.child found called)
  · exact congrArg Cursor.stack skipped.2.2
  · exact Terminal.stack_eq_of_move moved fun count same => dropless count (same ▸ body)

theorem Yields.stack_eq (yields : table.Yields source atomic root c (.matched (d,v))) (neutral : table.Neutral root)
    (none : table.separators = []) : d.stack = c.stack := by
  obtain ⟨-,frames,active,s,came⟩ := yields
  exact ((calls_neutral neutral none source frames active atomic).of_call trivial came).2.2 .self

/-- Without separators the elements stand one behind the other. -/
theorem Elements.cons_of_nil {skip first : Bool} {names : List String} {o : Outcome (Cursor × List Value)} (none : table.separators = [])
    (elements : table.Elements source skip atomic first (name :: names) c o) :
    (∃ f, table.Yields source atomic name c (.failed f) ∧ o = .failed f) ∨ ∃ d v o', table.Yields source atomic name c (.matched (d,v)) ∧
      table.Elements source skip atomic false names d o' ∧ o = o'.map fun x => (x.1,v :: x.2) := by
  cases elements with
  | lost gap one =>
    obtain rfl := gap.eq_of_nil none
    exact .inl ⟨_,one,rfl⟩
  | cons gap one rest =>
    obtain rfl := gap.eq_of_nil none
    exact .inr ⟨_,_,_,one,rest,rfl⟩

/-- A sequence of a node whose match is pushed, another node, and the text on top of the stack, which is then dropped. -/
structure Echoes (table : NodeTable) (whole push part between peek drop : String) : Prop where
  sequence : ∃ names skip, table.Bears whole (.product [push,between,peek,drop] names skip)
  pushed : table.Bears push (.push part)
  peeked : table.Bears peek (.terminal (.peek (-1) none))
  dropped : table.Bears drop (.terminal (.drop 1))

namespace Echoes

variable {whole push part between peek drop : String} {q r : Cursor} {w : Value}

/-- One of the first two elements fails and with it the sequence, or both match and the other two are left. -/
theorem begins (echoes : table.Echoes whole push part between peek drop) (none : table.separators = [])
    (yields : table.Yields source atomic whole c o) :
    (∃ f, table.Yields source atomic part c (.failed f) ∧ o = .failed f) ∨ ∃ q v, table.Yields source atomic part c (.matched (q,v)) ∧
      ((∃ f, table.Yields source atomic between (q.push (c.spanTo q)) (.failed f) ∧ o = .failed f) ∨
        ∃ r w, table.Yields source atomic between (q.push (c.spanTo q)) (.matched (r,w)) ∧
          ∃ (skip : Bool) (left : Outcome (Cursor × List Value)) (value : Cursor × List Value → Value),
            table.Elements source skip atomic false [peek,drop] r left ∧ o = left.map fun x => (x.1,value x)) := by
  obtain ⟨names,skip,_,sequence⟩ := echoes.sequence
  obtain ⟨_,pushed⟩ := echoes.pushed
  obtain ⟨o,elements,rfl⟩ := yields.product sequence rfl
  rcases elements.cons_of_nil none with ⟨f,failed,rfl⟩ | ⟨d,v,o,first,others,rfl⟩
  · rcases failed.push pushed rfl with ⟨f,failed,⟨⟩⟩ | ⟨q,v,_,⟨⟩⟩
    exact .inl ⟨f,failed,rfl⟩
  · rcases first.push pushed rfl with ⟨f,_,⟨⟩⟩ | ⟨q,v,one,⟨⟩⟩
    refine .inr ⟨q,v,one,?_⟩
    rcases others.cons_of_nil none with ⟨f,failed,rfl⟩ | ⟨r,w,o,other,left,rfl⟩
    · exact .inl ⟨f,failed,rfl⟩
    · refine .inr ⟨r,w,other,skip,o,fun x => .product whole (c.spanTo x.1) (v :: w :: x.2) names,left,?_⟩
      cases o <;> rfl

/-- The last two elements match where the text on top of the stack stands, and without its entry. -/
theorem elements_ends (echoes : table.Echoes whole push part between peek drop) (none : table.separators = [])
    {stack : List Span} {top : Span}
    (topped : r.stack = stack ++ [top]) (inside : r.pos ≤ source.length) {skip : Bool} {o : Outcome (Cursor × List Value)}
    (elements : table.Elements source skip atomic false [peek,drop] r o) :
    (top.chars source <+: (r.rest source).toList → ∃ vs, o = .matched (⟨r.pos + (top.chars source).length,stack⟩,vs)) ∧
    (¬top.chars source <+: (r.rest source).toList → ∃ msg labels, o = .failed ⟨.stack,msg,r.pos,labels⟩) := by
  obtain ⟨label,peeked⟩ := echoes.peeked
  obtain ⟨_,dropped⟩ := echoes.dropped
  have moves := Terminal.move_top topped inside label
  rcases elements.cons_of_nil none with ⟨f,failed,rfl⟩ | ⟨d,v,o,matched,last,rfl⟩
  · rcases failed.terminal peeked rfl with ⟨f,stuck,⟨⟩⟩ | ⟨d,_,⟨⟩⟩
    constructor
    · intro stands
      cases stuck.symm.trans (moves.1 stands)
    · intro differs
      obtain ⟨msg,same⟩ := moves.2 differs
      cases stuck.symm.trans same
      exact ⟨msg,[label],rfl⟩
  · rcases matched.terminal peeked rfl with ⟨f,_,⟨⟩⟩ | ⟨d,moved,⟨⟩⟩
    constructor
    · intro stands
      cases moved.symm.trans (moves.1 stands)
      have left (label : String) : (Terminal.drop 1).move source label (r.advance (top.chars source).length) =
          .ok ⟨r.pos + (top.chars source).length,stack⟩ := by
        rw [Terminal.move,Cursor.advance,topped,Stack.drop?_top]
        rfl
      rcases last.cons_of_nil none with ⟨f,failed,rfl⟩ | ⟨d,w,o,matched,nothing,rfl⟩
      · rcases failed.terminal dropped rfl with ⟨f,stuck,-⟩ | ⟨d,_,⟨⟩⟩
        cases stuck.symm.trans (left _)
      · rcases matched.terminal dropped rfl with ⟨f,_,⟨⟩⟩ | ⟨d,moved,⟨⟩⟩
        cases moved.symm.trans (left _)
        cases nothing
        exact ⟨_,rfl⟩
    · intro differs
      obtain ⟨msg,same⟩ := moves.2 differs
      cases moved.symm.trans same

/-- What the sequence comes to where its first two elements match. -/
theorem ends (echoes : table.Echoes whole push part between peek drop) (none : table.separators = []) (neutral : table.Neutral between)
    (inside : c.From source 0) (yields : table.Yields source atomic whole c o) (one : table.Yields source atomic part c (.matched (q,v)))
    (other : table.Yields source atomic between (q.push (c.spanTo q)) (.matched (r,w))) :
    ((c.spanTo q).chars source <+: (r.rest source).toList → ∃ shown, o = .matched (⟨r.pos + (q.pos - c.pos),q.stack⟩,shown)) ∧
    (¬(c.spanTo q).chars source <+: (r.rest source).toList → ∃ msg labels, o = .failed ⟨.stack,msg,r.pos,labels⟩) := by
  have before : q.From source c.pos := one.nears.from inside.2
  have after : r.From source q.pos := other.nears.from before.2
  have topped : r.stack = q.stack ++ [c.spanTo q] := other.stack_eq neutral none
  have length : ((c.spanTo q).chars source).length = q.pos - c.pos := by
    have size := Source.length_sliceChars inside.1 inside.2 before.1
    have ⟨first,last⟩ := before
    have nonneg := inside.1
    rw [Span.chars,Cursor.spanTo,size]
    omega
  rcases echoes.begins none yields with ⟨f,failed,-⟩ | ⟨q',v',one',⟨f,failed,-⟩ | ⟨r',w',other',skip,o,value,elements,rfl⟩⟩
  · cases one.unique failed
  · cases one.unique one'
    cases other.unique failed
  · cases one.unique one'
    cases other.unique other'
    obtain ⟨stands,differs⟩ := echoes.elements_ends none topped after.2 elements
    rw [length] at stands
    constructor
    · intro again
      obtain ⟨vs,rfl⟩ := stands again
      exact ⟨_,rfl⟩
    · intro apart
      obtain ⟨msg,labels,rfl⟩ := differs apart
      exact ⟨msg,labels,rfl⟩

/-- Without separators, and with nothing between that pushes or drops, such a sequence matches from a cursor inside the text
if and only if its first two elements do and the text of the first follows again, and then it ends behind that text with
the stack as the first element left it. If only that text does not follow, the stack is what the failure is about, and
it is where the text was asked for. -/
theorem backreference (echoes : table.Echoes whole push part between peek drop) (none : table.separators = [])
    (neutral : table.Neutral between)
    (inside : c.From source 0) (yields : table.Yields source atomic whole c o) :
    ((∃ x, o = .matched x) ↔ ∃ q v r w, table.Yields source atomic part c (.matched (q,v)) ∧
      table.Yields source atomic between (q.push (c.spanTo q)) (.matched (r,w)) ∧ (c.spanTo q).chars source <+: (r.rest source).toList) ∧
    ∀ q v r w, table.Yields source atomic part c (.matched (q,v)) →
      table.Yields source atomic between (q.push (c.spanTo q)) (.matched (r,w)) →
      ((c.spanTo q).chars source <+: (r.rest source).toList → ∃ shown, o = .matched (⟨r.pos + (q.pos - c.pos),q.stack⟩,shown)) ∧
      (¬(c.spanTo q).chars source <+: (r.rest source).toList → ∃ msg labels, o = .failed ⟨.stack,msg,r.pos,labels⟩) := by
  refine ⟨⟨?_,?_⟩,fun q v r w one other => echoes.ends none neutral inside yields one other⟩
  · rintro ⟨x,rfl⟩
    rcases echoes.begins none yields with ⟨f,_,⟨⟩⟩ | ⟨q,v,one,⟨f,_,⟨⟩⟩ | ⟨r,w,other,-⟩⟩
    refine ⟨q,v,r,w,one,other,Classical.not_not.1 fun differs => ?_⟩
    obtain ⟨msg,labels,⟨⟩⟩ := (echoes.ends none neutral inside yields one other).2 differs
  · rintro ⟨q,v,r,w,one,other,stands⟩
    obtain ⟨shown,rfl⟩ := (echoes.ends none neutral inside yields one other).1 stands
    exact ⟨_,rfl⟩

end Echoes

/-- A letter between as many marks as there are before it. -/
def fenced : NodeTable :=
  ⟨[⟨"fenced","fenced",.product ["open","letter","same","close"] ["open","letter","same","close"] false⟩,⟨"open","open",.push "marks"⟩,
    ⟨"marks","marks",.list "mark" false⟩,⟨"mark","mark",.terminal (.literal "#")⟩,⟨"letter","letter",.terminal (.range "a" "z")⟩,
    ⟨"same","same",.terminal (.peek (-1) none)⟩,⟨"close","close",.terminal (.drop 1)⟩],by decide⟩

theorem fenced_neutral : fenced.Neutral "letter" := by
  have only {name : String} (reached : fenced.Reachable "letter" name) : name = "letter" := by
    induction reached with
    | self => rfl
    | child reached found called ih =>
      subst ih
      cases found
      cases called
  intro name node reached found
  obtain rfl := only reached
  cases found
  exact ⟨nofun,nofun⟩

theorem fenced_again :
    let text := Source.ofString "##a##b"
    let marks := Value.many "marks" ⟨0,2⟩ [.leaf "mark" ⟨0,1⟩ (some "#"),.leaf "mark" ⟨1,2⟩ (some "#")]
    let shown := Value.product "fenced" ⟨0,5⟩
      [marks,.leaf "letter" ⟨2,3⟩ (some "a"),.leaf "same" ⟨3,5⟩ (some "##"),.leaf "close" ⟨5,5⟩ (some "")]
      ["open","letter","same","close"]
    fenced.Echoes "fenced" "open" "marks" "letter" "same" "close" ∧ fenced.separators = [] ∧ fenced.Neutral "letter" ∧
      Cursor.start.From text 0 ∧ fenced.Yields text false "fenced" .start (.matched (⟨5,[]⟩,shown)) ∧
      ∃ q v r w, fenced.Yields text false "marks" .start (.matched (q,v)) ∧
        fenced.Yields text false "letter" (q.push (Cursor.start.spanTo q)) (.matched (r,w)) ∧
        (Cursor.start.spanTo q).chars text <+: (r.rest text).toList := by
  intro text marks shown
  have echoes : fenced.Echoes "fenced" "open" "marks" "letter" "same" "close" := ⟨⟨_,_,_,rfl⟩,⟨_,rfl⟩,⟨_,rfl⟩,⟨_,rfl⟩⟩
  have plain : fenced.separators = [] := by decide
  have yields : fenced.Yields text false "fenced" .start (.matched (⟨5,[]⟩,shown)) :=
    ⟨Outcome.ended_matched,20,[],.new true,by decide +kernel⟩
  exact ⟨echoes,plain,fenced_neutral,Cursor.from_start,yields,
    (Echoes.backreference echoes plain fenced_neutral Cursor.from_start yields).1.1 ⟨_,rfl⟩⟩

end NodeTable

end TypedPeg
