import LoxLang.Proofs.Grammar.Names
import LoxLang.Proofs.Scope.Declared
import LoxLang.Proofs.Scope.Place

/-! The levels around an occurrence beside the constructs that enclose its place. A block or function
opens one level; a method stands in a level of its own, inside the one for `this` of its class and, if
the class has a superclass clause, the one for `super`. In blocks and functions nothing is called by a
reserved word, so `this` and `super` mean what they are in the innermost method. -/
namespace LoxLang.Scope
open Grammar

/-- The scope in which a method finds its instance. -/
def Site.isReceiver : Site → Bool
  | .receiver _ => true
  | .block _ | .routine _ | .parent _ => false

/-- No reserved word is a name in the level. -/
def Level.Plain (level : Level) : Prop := ∀ k : Keyword, ¬ level.names.contains k.spelling

/-- The levels are those that the enclosers open. -/
inductive Around : List Encloser → List Level → Prop
  | top : Around [] []
  | block {path levels level body} (site : level.site = .block body) (plain : level.Plain)
    (outer : Around path levels) : Around (.block :: path) (level :: levels)
  | function {path levels level d} (site : level.site = .routine d) (plain : level.Plain)
    (outer : Around path levels) : Around (.function :: path) (level :: levels)
  | method {path levels level d methods clause} (member : d ∈ methods) (site : level.site = .routine d)
    (plain : level.Plain) (outer : Around path levels) :
    Around (.method d.name clause :: path) (level :: classLevels clause methods levels)

variable {path : List Encloser} {levels : List Level} {o : Occurrence} {R Q : Reference → Prop}

theorem Level.Plain.set {level : Level} (plain : level.Plain) {name : Token} (free : name.Unreserved)
    (ready : Bool) : Level.Plain { level with names := level.names.set name.lexeme ready } := by
  intro k contained
  rcases (Table.contains_set _ _ _ _).mp contained with same | earlier
  · exact free k same.symm
  · exact plain k earlier

theorem plain_nil (site : Site) : Level.Plain ⟨site, []⟩ := by
  intro k contained
  cases contained

theorem plain_parameters {site : Site} {parameters : List Token}
    (free : ∀ p ∈ parameters, p.Unreserved) : Level.Plain ⟨site, parameterNames parameters⟩ := by
  intro k contained
  obtain ⟨p, member, same⟩ := parameterNames_contains contained
  exact free p member k same

namespace Around

theorem markIn (around : Around path levels) {name : Token} (free : name.Unreserved) (ready : Bool) :
    Around path (markIn name.lexeme ready levels) := by
  cases around with
  | top => exact .top
  | block site plain outer => exact .block site (plain.set free ready) outer
  | function site plain outer => exact .function site (plain.set free ready) outer
  | method member site plain outer => exact .method member site (plain.set free ready) outer

theorem behind (around : Around path levels) {s : Stmt} (free : ∀ t, s.declared? = some t → t.Unreserved) :
    Around path (behind s levels) := by
  unfold Scope.behind
  split
  · exact around
  · next name declared => exact around.markIn (free name declared) true

/-- Around code inside a method, `this` is in the level next outside of that of the innermost method, and
the levels inside of it are those of blocks and functions. If the class of the method has a superclass
clause, `super` is in the level outside of that. -/
theorem innermost (around : Around path levels) {method : Encloser}
    (innermost : path.find? Encloser.isMethod = some method) :
    ∃ d methods, (∃ declaration ∈ methods, levels[d]?.map Level.site = some (.routine declaration)) ∧
      levels[d + 1]?.map Level.site = some (.receiver methods) ∧
      levels.findIdx? (·.site.isReceiver) = some (d + 1) ∧
      levels.findIdx? (·.names.contains Keyword.this_.spelling) = some (d + 1) ∧
      (method.inherits → levels[d + 2]?.map Level.site = some (.parent methods) ∧
        levels.findIdx? (·.names.contains Keyword.super_.spelling) = some (d + 2)) := by
  induction around with
  | top => cases innermost
  | block site plain outer ih | function site plain outer ih =>
    obtain ⟨d, methods, routine, receiver, nearest, this, parent⟩ := ih innermost
    refine ⟨d + 1, methods, routine, receiver, ?_, ?_, fun inherits => ?_⟩
    · rw [List.findIdx?_cons, nearest, site]
      rfl
    · rw [List.findIdx?_cons, if_neg (plain .this_), this]
      rfl
    · obtain ⟨parent, super⟩ := parent inherits
      refine ⟨parent, ?_⟩
      rw [List.findIdx?_cons, if_neg (plain .super_), super]
      rfl
  | method member site plain outer =>
    cases innermost
    refine ⟨0, _, ⟨_, member, congrArg some site⟩, rfl, ?_, ?_, fun inherits => ?_⟩
    · rw [List.findIdx?_cons, site]
      rfl
    · rw [List.findIdx?_cons, if_neg (plain .this_)]
      rfl
    · obtain ⟨r, rfl⟩ := Option.isSome_iff_exists.mp inherits
      refine ⟨rfl, ?_⟩
      rw [List.findIdx?_cons, if_neg (plain .super_)]
      rfl

end Around

theorem declared_of_named {P : Token → Prop} {s : Stmt} (named : stmtNames P R Q s) :
    ∀ t, s.declared? = some t → P t := by
  intro t declared
  cases s with
  | var name initializer =>
    cases declared
    exact named.1
  | function d =>
    obtain ⟨name, parameters, body⟩ := d
    cases declared
    exact named.1
  | class_ name clause methods =>
    cases declared
    exact named.1
  | _ => cases declared

/-- The expression itself makes the occurrence, by its own reference. -/
def Occurrence.MadeBy (o : Occurrence) : Expr → Prop
  | .variable r => o.use = .read ∧ o.reference = r
  | .assign r _ => o.use = .write ∧ o.reference = r
  | .this r => o.use = .this ∧ o.reference = r
  | .super r _ => o.use = .super ∧ o.reference = r
  | _ => False

namespace Occurrence.MadeBy

theorem eq_this {e : Expr} (made : o.MadeBy e) (use : o.use = .this) : e = .this o.reference := by
  cases e with
  | this r => exact congrArg Expr.this made.2.symm
  | «variable» | assign | super => cases use.symm.trans made.1
  | _ => exact made.elim

theorem eq_super {e : Expr} (made : o.MadeBy e) (use : o.use = .super) :
    ∃ method, e = .super o.reference method := by
  cases e with
  | super r method => exact ⟨method, congrArg (Expr.super · method) made.2.symm⟩
  | «variable» | assign | this => cases use.symm.trans made.1
  | _ => exact made.elim

end Occurrence.MadeBy

/-- One of these expressions makes the occurrence. -/
def Occurrence.MadeIn (o : Occurrence) (parts : List Expr) : Prop := ∃ part ∈ parts, o.MadeBy part

namespace Occurrence.MadeIn

variable {parts more : List Expr}

theorem mono (made : o.MadeIn parts) (included : parts ⊆ more) : o.MadeIn more := by
  obtain ⟨part, member, own⟩ := made
  exact ⟨part, included member, own⟩

theorem inside {e : Expr} (made : o.MadeIn parts) : o.MadeIn (e :: parts) :=
  made.mono (List.subset_cons_self e parts)

theorem left (made : o.MadeIn parts) : o.MadeIn (parts ++ more) :=
  made.mono (List.subset_append_left parts more)

theorem right (made : o.MadeIn more) : o.MadeIn (parts ++ more) :=
  made.mono (List.subset_append_right parts more)

theorem self {e : Expr} (own : o.MadeBy e) : o.MadeIn (e :: parts) := ⟨e, List.mem_cons_self, own⟩

end Occurrence.MadeIn

mutual

/-- What occurs in an expression is made by a part of it. -/
theorem made_of_mem_exprOccurrences : ∀ e, o ∈ exprOccurrences levels e → o.MadeIn e.parts
  | .literal _, member => by simp [exprOccurrences] at member
  | .grouping inner, member => (made_of_mem_exprOccurrences inner member).inside
  | .unary _ right, member => (made_of_mem_exprOccurrences right member).inside
  | .binary left _ right, member | .logical left _ right, member => by
    rcases List.mem_append.mp member with member | member
    · exact (made_of_mem_exprOccurrences left member).left.inside
    · exact (made_of_mem_exprOccurrences right member).right.inside
  | .conditional condition thenBranch elseBranch, member => by
    rcases List.mem_append.mp member with member | member
    · exact (made_of_mem_exprOccurrences condition member).left.inside
    rcases List.mem_append.mp member with member | member
    · exact (made_of_mem_exprOccurrences thenBranch member).left.right.inside
    · exact (made_of_mem_exprOccurrences elseBranch member).right.right.inside
  | .variable _, member | .this _, member | .super _ _, member => by
    rw [List.mem_singleton.mp member]
    exact .self ⟨rfl, rfl⟩
  | .assign _ value, member => by
    rcases List.mem_append.mp member with member | member
    · exact (made_of_mem_exprOccurrences value member).inside
    · rw [List.mem_singleton.mp member]
      exact .self ⟨rfl, rfl⟩
  | .call callee _ arguments, member => by
    rcases List.mem_append.mp member with member | member
    · exact (made_of_mem_exprOccurrences callee member).left.inside
    · exact (made_of_mem_exprsOccurrences arguments member).right.inside
  | .get object _, member => (made_of_mem_exprOccurrences object member).inside
  | .set object _ value, member => by
    rcases List.mem_append.mp member with member | member
    · exact (made_of_mem_exprOccurrences value member).left.inside
    · exact (made_of_mem_exprOccurrences object member).right.inside

theorem made_of_mem_exprsOccurrences : ∀ es, o ∈ exprsOccurrences levels es → o.MadeIn (Expr.partsOf es)
  | [], member => by simp [exprsOccurrences] at member
  | e :: rest, member => by
    rcases List.mem_append.mp member with member | member
    · exact (made_of_mem_exprOccurrences e member).left
    · exact (made_of_mem_exprsOccurrences rest member).right

end

/-- The occurrence stands at one of the places, in its levels. It is made in an operand there, unless it
is what the superclass clause of a class reads. -/
def Occurrence.StandsIn (o : Occurrence) (places : List Place) : Prop :=
  ∃ place ∈ places, Around place.path o.levels ∧
    (o.use ≠ .read → ∃ e ∈ place.stmt.operands, o.MadeIn e.parts)

namespace Occurrence.StandsIn

variable {places more : List Place}

theorem mono (stands : o.StandsIn places) (included : places ⊆ more) : o.StandsIn more := by
  obtain ⟨place, member, found⟩ := stands
  exact ⟨place, included member, found⟩

theorem operand (around : Around path levels) {s : Stmt} {e : Expr} (operand : e ∈ s.operands)
    (member : o ∈ exprOccurrences levels e) : o.StandsIn (⟨path, s⟩ :: places) := by
  refine ⟨⟨path, s⟩, List.mem_cons_self, ?_, fun _ => ⟨e, operand, made_of_mem_exprOccurrences e member⟩⟩
  rw [levels_of_mem_exprOccurrences e member]
  exact around

theorem optional (around : Around path levels) {s : Stmt} {e : Option Expr}
    (operands : e.toList ⊆ s.operands) (member : o ∈ clauseOccurrences levels e) :
    o.StandsIn (⟨path, s⟩ :: places) := by
  cases e with
  | none => cases member
  | some e => exact operand around (operands (List.mem_singleton_self e)) member

end Occurrence.StandsIn

mutual

theorem stands_stmt : ∀ path levels s, Around path levels → stmtNames Token.Unreserved R Q s →
    o ∈ stmtOccurrences levels s → o.StandsIn (stmtPlaces path s)
  | _, _, .expression e, around, _, member | _, _, .print e, around, _, member =>
    .operand around (List.mem_singleton_self e) member
  | _, _, .var name e, around, named, member =>
    .optional (around.markIn named.1 false) (List.Subset.refl _) member
  | path, levels, .block body, around, named, member =>
    (stands_stmts (.block :: path) _ body (.block rfl (plain_nil _) around) named member).mono
      (List.subset_cons_self _ _)
  | path, levels, .if_ condition thenBranch none, around, named, member => by
    rcases List.mem_append.mp member with member | member
    · exact .operand around (List.mem_singleton_self _) member
    · exact (stands_stmt path levels thenBranch around named.2.1 member).mono (List.subset_cons_self _ _)
  | path, levels, .if_ condition thenBranch (some elseBranch), around, named, member => by
    rcases List.mem_append.mp member with member | member
    · exact .operand around (List.mem_singleton_self _) member
    rcases List.mem_append.mp member with member | member
    · exact (stands_stmt path levels thenBranch around named.2.1.1 member).mono
        (List.subset_cons_of_subset _ (List.subset_append_left _ _))
    · exact (stands_stmt path levels elseBranch around named.2.2.1 member).mono
        (List.subset_cons_of_subset _ (List.subset_append_right _ _))
  | path, levels, .while_ condition body, around, named, member => by
    rcases List.mem_append.mp member with member | member
    · exact .operand around (List.mem_singleton_self _) member
    · exact (stands_stmt path levels body around named.2.1 member).mono (List.subset_cons_self _ _)
  | path, levels, .function ⟨name, parameters, body⟩, around, named, member => by
    obtain ⟨free, listed, statements⟩ := named
    have outer := around.behind (s := .function ⟨name, parameters, body⟩) fun t declared => by
      cases declared
      exact free
    exact (stands_stmts (.function :: path) _ body (.function rfl (plain_parameters listed) outer)
      statements member).mono (List.subset_cons_self _ _)
  | _, _, .return_ keyword e, around, _, member => .optional around (List.Subset.refl _) member
  | path, levels, .class_ name clause methods, around, named, member => by
    obtain ⟨free, _, declarations⟩ := named
    rcases List.mem_append.mp member with member | member
    · cases clause with
      | none => cases member
      | some r =>
        rw [List.mem_singleton.mp member]
        exact ⟨_, List.mem_cons_self, around.markIn free false, fun other => absurd rfl other⟩
    · have outer := around.behind (s := .class_ name clause methods) fun t declared => by
        cases declared
        exact free
      exact (stands_methods path _ clause methods methods outer (List.Subset.refl _) declarations
        member).mono (List.subset_cons_self _ _)

theorem stands_stmts : ∀ path levels body, Around path levels → stmtsNames Token.Unreserved R Q body →
    o ∈ stmtsOccurrences levels body → o.StandsIn (stmtsPlaces path body)
  | _, _, [], _, _, member => by simp [stmtsOccurrences] at member
  | path, levels, s :: rest, around, named, member => by
    rcases List.mem_append.mp member with member | member
    · exact (stands_stmt path levels s around named.1 member).mono (List.subset_append_left _ _)
    · exact (stands_stmts path _ rest (around.behind (declared_of_named named.1)) named.2 member).mono
        (List.subset_append_right _ _)

theorem stands_methods : ∀ path levels clause methods ds, Around path levels → ds ⊆ methods →
    declarationsNames Token.Unreserved R Q ds → o ∈ methodsOccurrences (classLevels clause methods levels) ds →
    o.StandsIn (methodsPlaces path clause ds)
  | _, _, _, _, [], _, _, _, member => by simp [methodsOccurrences] at member
  | path, levels, clause, methods, ⟨name, parameters, body⟩ :: rest, around, included, named, member => by
    obtain ⟨⟨_, listed, statements⟩, others⟩ := named
    rcases List.mem_append.mp member with member | member
    · exact (stands_stmts (.method name clause :: path) _ body
        (.method (included List.mem_cons_self) rfl (plain_parameters listed) around) statements
        member).mono (List.subset_append_left _ _)
    · exact (stands_methods path levels clause methods rest around
        (List.Subset.trans (List.subset_cons_self _ _) included) others
        member).mono (List.subset_append_right _ _)

end

end LoxLang.Scope
