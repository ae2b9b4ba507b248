import TypedPeg.Assembly

/-! What validation asks of the rules of a grammar, before any of them is lowered. It is asked of
the rules in whatever order they come. -/
namespace TypedPeg

theorem validateNames_iff {seen : List String} {headings : List Heading} : validateNames seen headings = .ok () ↔
    (∀ h ∈ headings, h.kind.isKnown = true) ∧ (∀ h ∈ headings, h.name ∉ builtinNames) ∧
      (headings.map Heading.name).Nodup ∧ ∀ h ∈ headings, h.name ∉ seen := by
  induction headings generalizing seen with
  | nil => simp [validateNames]
  | cons first rest ih =>
    rw [validateNames,List.forall_mem_cons,List.forall_mem_cons,List.forall_mem_cons,List.map_cons,List.nodup_cons]
    split
    · rename_i strange
      simp [strange]
    · rename_i known
      split
      · rename_i reserved
        simp [reserved]
      · rename_i unreserved
        split
        · rename_i taken
          simp [taken]
        · rename_i fresh
          -- the others must avoid the first name too, so it is not among theirs
          rw [ih]
          simp only [List.mem_cons,not_or,List.mem_map,not_exists,not_and,Bool.not_eq_false] at known ⊢
          constructor
          · rintro ⟨kinds,names,distinct,apart⟩
            exact ⟨⟨known,kinds⟩,⟨unreserved,names⟩,⟨fun h member => (apart h member).1,distinct⟩,fresh,fun h member => (apart h member).2⟩
          · rintro ⟨⟨-,kinds⟩,⟨-,names⟩,⟨apart,distinct⟩,-,unseen⟩
            exact ⟨kinds,names,distinct,fun h member => ⟨apart h member,unseen h member⟩⟩

theorem validateRefs_iff {defined : List String} {rules : List Rule} : validateRefs defined rules = .ok () ↔
    ∀ rule ∈ rules, ∀ name ∈ rule.expr.idents, name ∈ defined := by
  induction rules with
  | nil => simp [validateRefs]
  | cons first rest ih =>
    have listed (name : String) : name ∈ first.expr.refs ↔ name ∈ first.expr.idents := by
      rw [Expr.refs,FirstSeen.ofList,FirstSeen.mem_addAll]
      simp
    rw [validateRefs,List.forall_mem_cons]
    split
    · rename_i name found
      have undefined : name ∉ defined := by simpa using List.find?_some found
      refine iff_of_false nofun fun resolved => undefined ?_
      exact resolved.1 name ((listed name).1 (List.mem_of_find?_eq_some found))
    · rename_i none
      rw [ih]
      refine (and_iff_right fun name referred => ?_).symm
      simpa using List.find?_eq_none.1 none name ((listed name).2 referred)

/-- Known kinds, one rule to a name, no builtin redefined, and no reference that leads nowhere. -/
structure Valid (rules : List Rule) : Prop where
  known : ∀ rule ∈ rules, rule.kind.isKnown = true
  unreserved : ∀ rule ∈ rules, rule.name ∉ builtinNames
  distinct : (rules.map Rule.name).Nodup
  resolved : ∀ rule ∈ rules, ∀ name ∈ rule.expr.idents, name ∈ rules.map Rule.name ++ builtinNames

theorem validate_iff {rules : List Rule} : validate rules = .ok () ↔ Valid rules := by
  have split : validate rules = .ok () ↔ validateNames [] (rules.map Rule.heading) = .ok () ∧
      validateRefs (rules.map Rule.name ++ builtinNames) rules = .ok () := by
    rw [validate]
    cases validateNames [] (rules.map Rule.heading) with
    | error fault => exact iff_of_false nofun fun both => nomatch both.1
    | ok named => exact (and_iff_right rfl).symm
  have names : (rules.map Rule.heading).map Heading.name = rules.map Rule.name := by rw [List.map_map]; rfl
  rw [split,validateNames_iff,validateRefs_iff,names,List.forall_mem_map,List.forall_mem_map]
  constructor
  · rintro ⟨⟨known,unreserved,distinct,-⟩,resolved⟩
    exact ⟨known,unreserved,distinct,resolved⟩
  · rintro ⟨known,unreserved,distinct,resolved⟩
    exact ⟨⟨known,unreserved,distinct,fun _ _ => List.not_mem_nil⟩,resolved⟩

theorem Valid.perm {rules rules' : List Rule} (valid : Valid rules) (perm : rules.Perm rules') : Valid rules' where
  known rule member := valid.known rule (perm.mem_iff.2 member)
  unreserved rule member := valid.unreserved rule (perm.mem_iff.2 member)
  distinct := ((perm.map Rule.name).nodup_iff).1 valid.distinct
  resolved rule member name referred := by
    have resolved := valid.resolved rule (perm.mem_iff.2 member) name referred
    rw [List.mem_append] at resolved ⊢
    exact resolved.imp_left (perm.map Rule.name).mem_iff.1

end TypedPeg
