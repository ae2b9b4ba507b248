import TypedPeg.Match.Call
import TypedPeg.Proofs.Grammar.Semantics

/-! Matching read off the expressions of a grammar. It runs as nodes do and fails at the same offsets, but it
knows neither nodes nor labels, and what a chain does is what each of its links makes of two parts. -/
namespace TypedPeg

section Run
variable {σ : Type}

instance : LawfulMonad (Run σ) := LawfulMonad.mk' (Run σ)
  (fun r => by
    funext s
    show (match r s with | (.matched a,s) => (.matched (id a),s) | (.failed f,s) => (.failed f,s) | (.halted h,s) => (.halted h,s)) = r s
    cases r s with
    | mk o t => cases o <;> rfl)
  (fun _ _ => rfl)
  (fun r next last => by
    funext s
    simp only [Run.bind_apply]
    cases r s with
    | mk o t => cases o <;> rfl)

/-- Tries each in turn. If all fail, it is at the furthest of the places where they do and of `far`. -/
def Run.anyOf {α : Type} (far : Int) : List (Run σ α) → Run σ α
  | [] => .raise ⟨.alternatives,"",far,[]⟩
  | run :: rest => do
    match ← run.attempt with
    | .ok a => return a
    | .error f => anyOf (max far f.pos) rest

end Run

/-- How names are matched and how separators are skipped. The flag is the atomic flag. -/
structure Reading (σ : Type) where
  call : Bool → String → Cursor → Run σ Cursor
  skip : Bool → Cursor → Run σ Cursor

namespace Reading

variable {σ : Type}

def gap (reading : Reading σ) (allowed atomic : Bool) (c : Cursor) : Run σ Cursor :=
  if allowed then reading.skip atomic c else return c

def rounds (reading : Reading σ) (skip atomic : Bool) (part : Cursor → Run σ Cursor) : Nat → Bool → Cursor → Run σ Cursor
  | 0,_,c => return c
  | more + 1,first,c => do
    let start ← reading.gap (skip && !first) atomic c
    match ← (part start).attempt with
    | .error _ => return c
    | .ok d => if d.pos = start.pos then return c else rounds reading skip atomic part more false d

def turn (separator : String → Cursor → Run σ Cursor) : List String → Cursor → Run σ Cursor
  | [],c => return c
  | name :: rest,c => do
    let got ← (separator name c).attempt
    turn separator rest (c.past got.toOption)

def turns (separator : String → Cursor → Run σ Cursor) (names : List String) : Nat → Cursor → Run σ Cursor
  | 0,c => return c
  | more + 1,c => do
    let d ← turn separator names c
    if c.pos < d.pos then turns separator names more d else return d

end Reading

variable {σ : Type} [Observer σ] (source : Source)

def Terminal.read (t : Terminal) (c : Cursor) : Run σ Cursor :=
  match t.reach source c with
  | some d => return d
  | none => .fail ⟨.plain,"",c.pos,[]⟩

namespace Expr

section Read
variable (reading : Reading σ) (skip atomic : Bool)

def read : Expr → Cursor → Run σ Cursor
  | .literal text,c => (Terminal.literal text).read source c
  | .caseless text,c => (Terminal.caseless text).read source c
  | .range lo hi,c => (Terminal.range lo.toString hi.toString).read source c
  | .peek start stop,c => (Terminal.peek start stop).read source c
  | .drop count,c => (Terminal.drop count).read source c
  | .skipUntil strings,c => (Terminal.skipUntil strings).read source c
  | .ref name,c => reading.call atomic name c
  | .tag inner _,c | .restore inner,c => inner.read c
  | .seq lhs rhs,c => do
    let d ← lhs.read c
    let d ← reading.gap skip atomic d
    rhs.read d
  | .choice lhs rhs,c => .anyOf c.pos [lhs.read c,rhs.read c]
  | .opt inner,c => do
    match ← (inner.read c).attempt with
    | .ok d => return d
    | .error _ => return c
  | .rep inner,c => reading.rounds skip atomic inner.read (c.ahead source + 2) true c
  | .followedBy inner,c => do
    match ← (inner.read c).attempt with
    | .ok _ => return c
    | .error _ => .raise ⟨.lookahead,"",c.pos,[]⟩
  | .notFollowedBy inner,c => do
    match ← ((inner.read c).attempt).hushed .negation with
    | .ok _ => .fail ⟨.lookahead,"",c.pos,[]⟩
    | .error _ => return c
  | .push inner,c => do
    let d ← inner.read c
    return d.push (c.spanTo d)

def readItems : List Expr → Cursor → Run σ Cursor
  | [],c => return c
  | e :: rest,c => do
    let d ← reading.gap skip atomic c
    let d ← e.read source reading skip atomic d
    readItems rest d

end Read

variable {reading : Reading σ} {skip atomic : Bool}

theorem gap_read (rhs : Expr) (c : Cursor) : (reading.gap skip atomic c >>= rhs.read source reading skip atomic) =
    readItems source reading skip atomic (rhs.elements .seq) c := by
  induction rhs generalizing c with
  | seq lhs rhs _ ih =>
    rw [elements,readItems]
    refine bind_congr fun d => ?_
    rw [read]
    exact bind_congr fun d' => ih d'
  | _ => simp [elements,readItems]

theorem read_seq (lhs rhs : Expr) (c : Cursor) : (Expr.seq lhs rhs).read source reading skip atomic c =
    lhs.read source reading skip atomic c >>= readItems source reading skip atomic (rhs.elements .seq) := by
  rw [read]
  exact bind_congr fun d => gap_read source rhs d

end Expr

namespace Run

variable {τ α : Type} {near far : Int}

theorem anyOf_cons (run : Run τ α) (rest : List (Run τ α)) (s : τ) : anyOf far (run :: rest) s =
    match run s with
    | (.matched a,t) => (.matched a,t)
    | (.failed f,t) => anyOf (max far f.pos) rest t
    | (.halted h,t) => (.halted h,t) := by
  rw [anyOf,bind_apply,attempt]
  cases run s with
  | mk o t => cases o <;> rfl

theorem le_of_anyOf {runs : List (Run τ α)} {s : τ} {f : Failure} (failed : (anyOf near runs s).1 = .failed f) : near ≤ f.pos := by
  induction runs generalizing near s with
  | nil =>
    cases failed
    exact Int.le_refl _
  | cons run rest ih =>
    rw [anyOf_cons] at failed
    generalize run s = e at failed
    obtain ⟨o,t⟩ := e
    cases o with
    | failed g => exact Int.le_trans (Int.le_max_left near g.pos) (ih failed)
    | matched _ | halted _ => cases failed

/-- An alternative that does not fail before a place may be tried from that place. -/
theorem anyOf_max {run : Run τ α} (behind : ∀ s f, (run s).1 = .failed f → near ≤ f.pos) (rest : List (Run τ α)) :
    anyOf far (run :: rest) = anyOf (max far near) (run :: rest) := by
  funext s
  rw [anyOf_cons,anyOf_cons]
  cases ended : run s with
  | mk o t =>
    cases o with
    | failed f =>
      have le := behind s f (congrArg Prod.fst ended)
      dsimp only
      rw [Int.max_assoc,Int.max_eq_right le]
    | matched _ | halted _ => rfl

theorem anyOf_congr (run : Run τ α) {rest rest' : List (Run τ α)} (same : ∀ further ≥ far, anyOf further rest = anyOf further rest') :
    anyOf far (run :: rest) = anyOf far (run :: rest') := by
  have same (f : Failure) := same (max far f.pos) (Int.le_max_left far f.pos)
  simp only [anyOf,same]

/-- The alternatives of an alternative may be tried in its place. -/
theorem anyOf_anyOf (le : near ≤ far) (inner rest : List (Run τ α)) : anyOf far (anyOf near inner :: rest) = anyOf far (inner ++ rest) := by
  induction inner generalizing near far with
  | nil =>
    funext s
    rw [anyOf_cons]
    exact congrArg (anyOf · rest s) (Int.max_eq_left le)
  | cons run inner ih =>
    funext s
    rw [anyOf_cons,anyOf_cons,List.cons_append,anyOf_cons]
    cases run s with
    | mk o t =>
      cases o with
      | failed f =>
        -- what is left of the inner alternatives fails no earlier than the one that has failed
        have behind (s : τ) (g : Failure) (failed : (anyOf (max near f.pos) inner s).1 = .failed g) : f.pos ≤ g.pos :=
          Int.le_trans (Int.le_max_right near f.pos) (le_of_anyOf failed)
        have le : max near f.pos ≤ max far f.pos := by omega
        dsimp only
        rw [← ih le,← anyOf_max behind,anyOf_cons]
      | matched _ | halted _ => rfl

end Run

namespace Expr

variable {reading : Reading σ} {skip atomic : Bool} {source}

theorem anyOf_read {far : Int} (rhs : Expr) {c : Cursor} (le : c.pos ≤ far) : Run.anyOf far [rhs.read source reading skip atomic c] =
    .anyOf far ((rhs.elements .choice).map fun e => e.read source reading skip atomic c) := by
  induction rhs generalizing far with
  | choice lhs rhs _ ih =>
    rw [read,Run.anyOf_anyOf le,elements,List.map_cons]
    exact Run.anyOf_congr _ fun further enough => ih (Int.le_trans le enough)
  | _ => rfl

theorem read_choice (lhs rhs : Expr) (c : Cursor) : (Expr.choice lhs rhs).read source reading skip atomic c =
    .anyOf c.pos (((Expr.choice lhs rhs).elements .choice).map fun e => e.read source reading skip atomic c) := by
  rw [read,elements,List.map_cons]
  exact Run.anyOf_congr _ fun further enough => anyOf_read rhs enough

end Expr

theorem Rule.find?_of_mem {rules : List Rule} (distinct : (rules.map Rule.name).Nodup) {rule : Rule} (member : rule ∈ rules) :
    rules.find? (fun other => other.name = rule.name) = some rule := by
  cases found : rules.find? (fun other => other.name = rule.name) with
  | none => exact absurd (decide_eq_true rfl) (List.find?_eq_none.1 found rule member)
  | some other =>
    have named : other.name = rule.name := by simpa using List.find?_some found
    rw [List.inj_on_of_nodup_map distinct (List.mem_of_find?_eq_some found) member named]

namespace Reading

def skipping (separator : String → Cursor → Run σ Cursor) (names : List String) (atomic : Bool) (c : Cursor) : Run σ Cursor :=
  if names.isEmpty || atomic then return c else (turns separator names (c.ahead source + 2) c).hushed .separators

/-- The rules of a grammar read one within another, so many deep at most. -/
def ofRules (rules : List Rule) : Nat → Reading σ
  | 0 => ⟨fun _ _ _ => .halt .tooDeep,fun _ _ => .halt .tooDeep⟩
  | depth + 1 => {
      call := fun atomic name c =>
        match rules.find? (fun rule => rule.name = name) with
        | some rule => rule.expr.read source (ofRules rules depth) rule.skips (rule.kind.flag atomic) c
        | none =>
          match builtinTerminal? name with
          | some t => t.read source c
          | none => .fail ⟨.undefinedRule,"",c.pos,[]⟩
      skip := skipping source ((ofRules rules depth).call true) (Table.separatorNames.filter (· ∈ rules.map Rule.name)) }

end Reading

end TypedPeg
