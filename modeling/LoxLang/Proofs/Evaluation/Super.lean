import Mathlib
import LoxLang.Proofs.Evaluation.Located
import LoxLang.Proofs.Scope.Acceptance
import LoxLang.Proofs.Scope.Enclosure
import LoxLang.Proofs.Scope.Identity

/-! Calling a method of the superclass. Around the code of a method of a subclass stand a frame that
binds `this`, made when the method was bound to its instance, and outside of it a frame that binds
`super`, made when the class was declared. A reference to the superclass is located at the latter, so it
means the class that the superclass clause named at that time. -/
namespace LoxLang

/-- The class and those it inherits from, the nearest first. -/
def Class.lineage : Class → List Class
  | ⟨id, name, superclass, methods⟩ =>
    ⟨id, name, superclass, methods⟩ ::
      match superclass with
      | some parent => parent.lineage
      | none => []

theorem Class.findMethod?_eq_findSome? (name : String) :
    ∀ c : Class, c.findMethod? name = c.lineage.findSome? (·.methods.get? name)
  | ⟨_, _, none, methods⟩ => by
    rw [findMethod?, lineage, List.findSome?_cons]
    cases methods.get? name <;> rfl
  | ⟨_, _, some parent, methods⟩ => by
    rw [findMethod?, lineage, List.findSome?_cons]
    cases methods.get? name with
    | none => exact parent.findMethod?_eq_findSome? name
    | some method => rfl

namespace Eval
open Scope

theorem ofOption_eq_ok {found : Option Value} {cause : RuntimeError.Cause} {line : Nat} {v : Value}
    {m next : Machine} (ended : ofOption found cause line m = .ok v next) : found = some v ∧ next = m := by
  cases found with
  | none => cases ended
  | some w =>
    cases ended
    exact ⟨rfl, rfl⟩

theorem lookUp_eq_ok {r : Reference} {v : Value} {m next : Machine} (ended : lookUp r m = .ok v next) :
    next = m := by
  unfold lookUp at ended
  exact (ofOption_eq_ok ended).2

/-- A name without a recorded depth is that of a global. -/
theorem lookUp_of_unlocated {r : Reference} {m : Machine} {v : Value} (unlocated : m.depths[r.id]? = none)
    (found : m.store.get? m.globals r.name.lexeme = some v) : lookUp r m = .ok v m := by
  simp only [lookUp, unlocated, found]
  rfl

/-- The superclass of a class statement is what its clause names. -/
theorem lookUp_of_superclass {clause : Option Reference} {c : Class} {m next : Machine}
    (ended : superclass clause m = .ok (some c) next) :
    ∃ r, clause = some r ∧ lookUp r m = .ok (.class_ c) m := by
  cases clause with
  | none => cases ended
  | some r =>
    obtain ⟨v, middle, found, given⟩ := bind_eq_ok ended
    cases v with
    | class_ c' =>
      cases given
      have same := lookUp_eq_ok found
      exact ⟨r, rfl, same ▸ found⟩
    | _ => cases given

namespace Run

variable {run : Run}

/-- The run executed a class statement with these methods that named a superclass, which was this class at
that moment, and closed its methods over this frame. -/
def Derives (run : Run) (methods : List Declaration) (parent : Class) (outer : FrameId)
    (closed : List (String × Function)) : Prop :=
  ∃ fuel name r m, run.Reaches ⟨fuel + 1, .execute (.class_ name (some r) methods), m⟩ ∧
    lookUp r m = .ok (.class_ parent) m ∧
    ClosesMethods m name (some r) methods (some parent) outer closed

/-- The run bound one of these methods to the instance, closed over this frame. -/
def BoundTo (run : Run) (closed : List (String × Function)) (f : Function) (i : Instance)
    (inner : FrameId) : Prop :=
  ∃ moment s key method, run.Reaches moment ∧ BindsMethod moment s method i ∧ (key, method) ∈ closed ∧
    f = (s.bindMethod method i).1 ∧ inner = ⟨s.frames.size⟩

theorem Opened.reaches : ∀ {moment scopes}, run.Opened moment scopes → run.Reaches moment
  | _, _, .start starts => .start starts
  | _, _, .enter before enters _ => .enter before.reaches enters
  | _, _, .block before enters => .enter before.reaches enters
  | _, _, .routine before enters _ => .enter before.reaches enters

/-- Code that runs stands in a block or in the body of a function before all else. -/
theorem Opened.innermost : ∀ {moment scopes}, run.Opened moment scopes → ∀ a ∈ scopes.head?,
    (∃ body frame, a = .block body frame) ∨ ∃ f frame, a = .routine f frame
  | _, _, .start _, _, found => nomatch found
  | _, _, .enter before _ _, a, found => before.innermost a found
  | _, _, .block _ _, _, rfl => .inl ⟨_, _, rfl⟩
  | _, _, .routine _ _ _, _, rfl => .inr ⟨_, _, rfl⟩

/-- Around the methods of a class there is no function that is not around the class. -/
theorem routine_of_around {methods : List Declaration} {outer frame : FrameId} {parent : Option Class}
    {scopes : List Activation} {d : Nat} {f : Function}
    (found : (aroundMethods methods outer parent scopes)[d]? = some (.routine f frame)) :
    ∃ d', scopes[d']? = some (.routine f frame) ∧
      (aroundMethods methods outer parent scopes).drop (d + 1) = scopes.drop (d' + 1) := by
  cases parent with
  | none => exact ⟨d, found, rfl⟩
  | some c =>
    cases d with
    | zero => cases found
    | succ d => exact ⟨d, found, rfl⟩

mutual

/-- A function whose body runs was made inside the scopes outside of it. -/
theorem Opened.made : ∀ {moment scopes}, run.Opened moment scopes → ∀ {d f frame},
    scopes[d]? = some (.routine f frame) → run.Made f (scopes.drop (d + 1))
  | _, _, .start _, _, _, _, found => nomatch found
  | _, _, .enter before _ _, _, _, _, found => before.made found
  | _, _, .block _ _, 0, _, _, found => nomatch found
  | _, _, .block before _, d + 1, _, _, found => before.made (d := d) found
  | _, _, .routine _ _ made, 0, _, _, found => by
    cases found
    exact made
  | _, _, .routine _ _ made, d + 1, _, _, found => made.made (d := d) found

theorem Made.made : ∀ {g scopes}, run.Made g scopes → ∀ {d f frame},
    scopes[d]? = some (.routine f frame) → run.Made f (scopes.drop (d + 1))
  | _, _, .declared here, _, _, _, found => here.made found
  | _, _, .bound _ _ _, 0, _, _, found => nomatch found
  | _, _, .bound _ _ unbound, d + 1, _, _, found => unbound.made (d := d) found

theorem MadeMethod.made : ∀ {g methods scopes}, run.MadeMethod g methods scopes → ∀ {d f frame},
    scopes[d]? = some (.routine f frame) → run.Made f (scopes.drop (d + 1))
  | _, _, _, .closed here _ _, _, _, _, found => by
    obtain ⟨d, there, same⟩ := routine_of_around found
    rw [same]
    exact here.made there

end

/-- The code that runs inside these scopes stands in a method of a subclass. The method runs `d` steps
out, bound to the instance; around it is the frame that was made for `this` when it was bound, and around
that the frame that was made for `super` when the class was declared. -/
structure Inherits (run : Run) (scopes : List Activation) (d : Nat) (methods : List Declaration)
    (f : Function) (i : Instance) (inner : FrameId) (parent : Class) (outer : FrameId) : Prop where
  method : f.declaration ∈ methods
  running : ∃ body, scopes[d]? = some (.routine f body)
  receiver : scopes[d + 1]? = some (.receiver methods i inner)
  superclass : scopes[d + 2]? = some (.parent methods parent outer)
  history : ∃ closed, run.Derives methods parent outer closed ∧ run.BoundTo closed f i inner

theorem drop_of_getElem? {scopes : List Activation} {d : Nat} {a : Activation}
    (there : scopes[d]? = some a) : scopes.drop d = a :: scopes.drop (d + 1) := by
  obtain ⟨bound, rfl⟩ := List.getElem?_eq_some_iff.mp there
  exact List.drop_eq_getElem_cons bound

/-- A method that runs between the frames of its instance and of the superclass of its class was bound to
the one and closed over the other. -/
theorem Opened.history {moment : Moment} {scopes : List Activation} (opened : run.Opened moment scopes)
    {d : Nat} {f : Function} {body inner outer : FrameId} {methods methods' : List Declaration}
    {i : Instance} {parent : Class} (running : scopes[d]? = some (.routine f body))
    (receiver : scopes[d + 1]? = some (.receiver methods i inner))
    (superclass : scopes[d + 2]? = some (.parent methods' parent outer)) :
    ∃ closed, run.Derives methods parent outer closed ∧ run.BoundTo closed f i inner := by
  have made := opened.made running
  rw [drop_of_getElem? receiver, drop_of_getElem? superclass] at made
  generalize same : Activation.receiver methods i inner :: _ = around at made
  cases made with
  | declared here =>
    subst same
    rcases here.innermost _ rfl with ⟨_, _, impossible⟩ | ⟨_, _, impossible⟩ <;> cases impossible
  | bound here binds unbound =>
    obtain ⟨bound, outside⟩ := List.cons.inj same
    cases bound
    cases unbound with
    | @closed _ _ _ _ _ _ parent' _ _ _ _ declared closes member =>
      cases parent' with
      | none =>
        subst outside
        rcases declared.innermost _ rfl with ⟨_, _, impossible⟩ | ⟨_, _, impossible⟩ <;> cases impossible
      | some c =>
        cases outside
        have closing := closes
        obtain ⟨_, _, _, _, named, _⟩ := closing
        obtain ⟨r, rfl, found⟩ := lookUp_of_superclass named
        exact ⟨_, ⟨_, _, r, _, declared.reaches, found, closes⟩,
          ⟨_, _, _, _, here.reaches, binds, member, rfl, rfl⟩⟩

/-- Inside levels of which three are those of a method, of `this` and of `super`, the method runs in a
scope of its own, between those of its instance and of the superclass. -/
theorem SoundIn.inherits {moment : Moment} {levels : List Level} {scopes : List Activation}
    (sound : run.SoundIn moment levels scopes) {d : Nat} {methods : List Declaration}
    {declaration : Declaration} (member : declaration ∈ methods)
    (routine : levels[d]?.map Level.site = some (.routine declaration))
    (receiver : levels[d + 1]?.map Level.site = some (.receiver methods))
    (superclass : levels[d + 2]?.map Level.site = some (.parent methods)) :
    ∃ f i inner parent outer, run.Inherits scopes d methods f i inner parent outer := by
  obtain ⟨_, running, site⟩ := sound.mirrored.active routine
  obtain ⟨f, body, rfl, rfl⟩ := Activation.eq_routine site
  obtain ⟨_, received, site⟩ := sound.mirrored.active receiver
  obtain ⟨i, inner, rfl⟩ := Activation.eq_receiver site
  obtain ⟨_, inherited, site⟩ := sound.mirrored.active superclass
  obtain ⟨parent, outer, rfl⟩ := Activation.eq_parent site
  exact ⟨f, i, inner, parent, outer, member, ⟨body, running⟩, received, inherited,
    sound.opened.history running received inherited⟩

end Run

/-- Calling a method of the superclass reads the frame for `super` and the one just inside it. -/
theorem evaluate_super_eq {n d : Nat} {keyword : Reference} {method : Token} {m : Machine}
    {parent : Class} {i : Instance} {inner outer : FrameId}
    (recorded : m.depths[keyword.id]? = some (d + 1))
    (above : m.store.ancestor? (d + 1) m.current = some outer)
    (superclass : m.store.read? outer Keyword.super_.spelling = some (.class_ parent))
    (within : m.store.ancestor? d m.current = some inner)
    (receiver : m.store.read? inner Keyword.this_.spelling = some (.instance_ i)) :
    evaluate (n + 1) (.super keyword method) m =
      match parent.lineage.findSome? (·.methods.get? method.lexeme) with
      | some found => .ok (.function (m.store.bindMethod found i).1)
        { m with store := (m.store.bindMethod found i).2 }
      | none => .error (.fault ⟨.undefinedProperty method.lexeme, method.line⟩) m := by
  have found : m.store.getAt? (d + 1) m.current "super" = some (.class_ parent) :=
    Store.getAt?_of_read above superclass
  have found' : m.store.getAt? d m.current "this" = some (.instance_ i) :=
    Store.getAt?_of_read within receiver
  rw [← Class.findMethod?_eq_findSome?]
  change superMethod keyword method m = _
  unfold superMethod
  have got : (get : Eval Machine) m = .ok m m := rfl
  rw [bind_of_ok got, recorded]
  dsimp only
  rw [found, Nat.add_sub_cancel, found']
  have given (v : Value) (cause : RuntimeError.Cause) (line : Nat) :
      ofOption (some v) cause line m = .ok v m := rfl
  rw [bind_of_ok (given _ _ _), bind_of_ok (given _ _ _)]
  dsimp only
  cases parent.findMethod? method.lexeme <;> rfl

/-- In a program that is resolved without a fault, an occurrence that does not merely read a name is made
in an operand at a valid place. -/
theorem stands_valid {program : List Stmt} {o : Occurrence} {R Q : Reference → Prop}
    (clean : (resolve program).2 = []) (plain : Grammar.stmtsNames Token.Unreserved R Q program)
    (member : o ∈ occurrences program) (other : o.use ≠ .read) :
    ∃ place : Place, place.Valid ∧ Around place.path o.levels ∧
      ∃ e ∈ place.stmt.operands, o.MadeIn e.parts := by
  obtain ⟨place, placed, around, made⟩ := stands_stmts [] [] program .top plain member
  exact ⟨place, (resolve_checks program).2.mp clean place placed, around, made other⟩

/-- In a program that is read and resolved without a fault, a reference to the superclass stands in a
method whose class has a superclass clause, and no method is nearer. -/
theorem super_in_subclass {source : String} {keyword : Reference} {levels : List Level}
    {R Q : Reference → Prop} (clean : (resolve (Program.read source).statements).2 = [])
    (plain : Grammar.stmtsNames Token.Unreserved R Q (Program.read source).statements)
    (member : ⟨.super, keyword, levels⟩ ∈ occurrences (Program.read source).statements) :
    keyword.name.lexeme = Keyword.super_.spelling ∧
    ∃ d methods, (∃ declaration ∈ methods, levels[d]?.map Level.site = some (.routine declaration)) ∧
      levels[d + 1]?.map Level.site = some (.receiver methods) ∧
      levels[d + 2]?.map Level.site = some (.parent methods) ∧
      levels.findIdx? (·.names.contains Keyword.this_.spelling) = some (d + 1) ∧
      levels.findIdx? (·.names.contains Keyword.super_.spelling) = some (d + 2) := by
  obtain ⟨high, built⟩ := Grammar.readProgram_built (scan source).1
  have fits := (numbered_of_built built []).fit _ member
  refine ⟨(scan_fitting source _ fits.1).word fits.2, ?_⟩
  obtain ⟨place, valid, around, e, operand, part, inside, own⟩ := stands_valid clean plain member nofun
  obtain ⟨_, rfl⟩ := own.eq_super rfl
  obtain ⟨_, innermost, inherits⟩ := valid.inherited e operand _ _ inside
  obtain ⟨d, methods, routine, receiver, _, this, outside⟩ := around.innermost innermost
  obtain ⟨parent, super⟩ := outside inherits
  exact ⟨d, methods, routine, receiver, parent, this, super⟩

/-- In a program that is read and resolved without a fault, whenever a method of the superclass is called,
the code stands in a method of a class with a superclass clause. The frame at the recorded depth binds
`super` to the class that the clause named when the class was declared, the frame just inside it binds
`this` to the instance to which the running method was bound, and the call finds the method of the nearest
class from that superclass on that has it, bound to that instance, or no such property. -/
theorem super_is_static {fuel n : Nat} {clock : Nat → Float} {source : String} {out : Sink}
    {keyword : Reference} {method : Token} {m : Machine}
    (clean : (resolve (Program.read source).statements).2 = [])
    (reached : (Run.ofSource fuel clock source out).Reaches
      ⟨n + 1, .evaluate (.super keyword method), m⟩) :
    ∃ d levels scopes level methods f i inner parent outer,
      m.depths[keyword.id]? = some (d + 2) ∧
      (Run.ofSource fuel clock source out).Locates ⟨n + 1, .evaluate (.super keyword method), m⟩ keyword
        (d + 2) levels scopes level (.parent methods parent outer) ∧
      levels.findIdx? (·.names.contains Keyword.this_.spelling) = some (d + 1) ∧
      (Run.ofSource fuel clock source out).Inherits scopes d methods f i inner parent outer ∧
      m.store.read? outer Keyword.super_.spelling = some (.class_ parent) ∧
      m.store.ancestor? (d + 1) m.current = some inner ∧
      m.store.read? inner Keyword.this_.spelling = some (.instance_ i) ∧
      evaluate (n + 1) (.super keyword method) m =
        match parent.lineage.findSome? (·.methods.get? method.lexeme) with
        | some found => .ok (.function (m.store.bindMethod found i).1)
          { m with store := (m.store.bindMethod found i).2 }
        | none => .error (.fault ⟨.undefinedProperty method.lexeme, method.line⟩) m := by
  have fresh := Run.fresh_ofSource fuel clock source out
  obtain ⟨levels, scopes, sound⟩ := fresh.sound reached
  have member : ⟨.super, keyword, levels⟩ ∈ occurrences (Program.read source).statements :=
    sound.task (List.mem_singleton_self _)
  obtain ⟨spelled, d, methods, ⟨declaration, listed, routine⟩, receiver, superclass, this, super⟩ :=
    super_in_subclass clean fresh.plain member
  -- The frames around the code are those of such a method too.
  obtain ⟨f, i, inner, parent, outer, inside⟩ := sound.inherits listed routine receiver superclass
  have resolved : resolve (Program.read source).statements =
      ((resolve (Program.read source).statements).1, []) := Prod.ext rfl clean
  obtain ⟨record, ready⟩ := resolve_records resolved _ member
  have nearest : levels.findIdx? (·.names.contains keyword.name.lexeme) = some (d + 2) := by
    rw [spelled]
    exact super
  have recorded : m.depths[keyword.id]? = some (d + 2) := by
    rw [reached.depths]
    exact record.trans nearest
  obtain ⟨level, chosen, named⟩ := ready nofun (d + 2) nearest
  obtain ⟨above, active, sited, ancestor, bound⟩ := sound.mirrored.located chosen
  have sites := occurrences_sited source _ member level (List.mem_of_getElem? chosen)
  have contained : level.names.contains keyword.name.lexeme := Option.isSome_of_eq_some named
  obtain rfl := Option.some.inj (inside.superclass.symm.trans active)
  obtain ⟨level', chosen', _⟩ := Option.map_eq_some_iff.mp receiver
  obtain ⟨within, active', _, ancestor', _⟩ := sound.mirrored.located chosen'
  obtain rfl := Option.some.inj (inside.receiver.symm.trans active')
  have holds := sound.mirrored.holds _ (List.mem_of_getElem? active)
  have holds' := sound.mirrored.holds _ (List.mem_of_getElem? active')
  exact ⟨d, levels, scopes, level, methods, f, i, inner, parent, outer, recorded,
    ⟨⟨_, member⟩, nearest, chosen, sites _ contained, sound.opened, sound.mirrored.sites, active, ancestor,
      bound _ named⟩, this, inside, holds, ancestor', holds',
    evaluate_super_eq recorded ancestor holds ancestor' holds'⟩

/-- The initializer of a subclass calls a method of the superclass. -/
theorem inherited_method_called :
    let source := "class A\x7bm()\x7b\x7d\x7dclass B<A\x7binit()\x7bsuper.m;\x7d\x7dB();"
    let run := Run.ofSource 9 (fun _ => 0) source (.ofCapacity none)
    (resolve (Program.read source).statements).2 = [] ∧
    ∃ n keyword method m, run.Reaches ⟨n + 1, .evaluate (.super keyword method), m⟩ ∧
      ∃ d levels scopes level methods f i inner parent outer,
        m.depths[keyword.id]? = some (d + 2) ∧
        run.Locates ⟨n + 1, .evaluate (.super keyword method), m⟩ keyword (d + 2) levels scopes level
          (.parent methods parent outer) ∧
        run.Inherits scopes d methods f i inner parent outer := by
  intro source run
  let class_ : Token := ⟨.keyword .class_, "class", 1⟩
  let a : Token := ⟨.identifier, "A", 1⟩
  let b : Token := ⟨.identifier, "B", 1⟩
  let method : Token := ⟨.identifier, "m", 1⟩
  let init : Token := ⟨.identifier, "init", 1⟩
  let super : Token := ⟨.keyword .super_, "super", 1⟩
  let opening : Token := ⟨.symbol .leftBrace, "\x7b", 1⟩
  let closing : Token := ⟨.symbol .rightBrace, "\x7d", 1⟩
  let left : Token := ⟨.symbol .leftParen, "(", 1⟩
  let right : Token := ⟨.symbol .rightParen, ")", 1⟩
  let semicolon : Token := ⟨.symbol .semicolon, ";", 1⟩
  let tokens := [class_, a, opening, method, left, right, opening, closing, closing,
    class_, b, ⟨.symbol .less, "<", 1⟩, a, opening, init, left, right, opening, super,
    ⟨.symbol .dot, ".", 1⟩, method, semicolon, closing, closing, b, left, right, semicolon,
    ⟨.endOfFile, "", 1⟩]
  let plain : Declaration := ⟨method, [], []⟩
  let calling : Declaration := ⟨init, [], [.expression (.super ⟨1, super⟩ method)]⟩
  let making : Expr := .call (.variable ⟨2, b⟩) right []
  let program : List Stmt :=
    [.class_ a none [plain], .class_ b (some ⟨0, a⟩) [calling], .expression making]
  have scanned : (scan source).1 = tokens := by decide +kernel
  have parsed : (Grammar.readProgram tokens).1 = program := by cbv
  have read : (Program.read source).statements = program := Program.statements_of_scan scanned parsed
  have clean : (resolve (Program.read source).statements).2 = [] := by
    rw [read]
    rfl
  -- The machine is followed for any depths that leave the names of the classes unlocated.
  have reaches (depths : Depths) (unlocated : depths[(0 : Nat)]? = none)
      (unlocated' : depths[(2 : Nat)]? = none) :
      let first : Machine := .start depths (.ofCapacity none) fun _ => 0
      ∃ m, (Run.mk 9 program first).Reaches ⟨1 + 1, .evaluate (.super ⟨1, super⟩ method), m⟩ := by
    intro first
    let parent : Class := ⟨⟨0⟩, "A", none, [("m", ⟨⟨0⟩, plain, ⟨0⟩, false⟩)]⟩
    let child : Class := ⟨⟨1⟩, "B", some parent, [("init", ⟨⟨1⟩, calling, ⟨1⟩, true⟩)]⟩
    let middle : Machine := { first with store :=
      ⟨#[⟨[("clock", .native .clock), ("A", .class_ parent)], none⟩], #[], 1, 1⟩ }
    let declared : Machine := { first with store :=
      ⟨#[⟨[("clock", .native .clock), ("A", .class_ parent), ("B", .class_ child)], none⟩,
        ⟨[("super", .class_ parent)], some ⟨0⟩⟩], #[], 2, 2⟩ }
    have one : execute 9 (.class_ a none [plain]) first = .ok .normal middle :=
      bind_of_ok (defineClass_of_ok rfl rfl rfl rfl)
    have named : lookUp ⟨0, a⟩ middle = .ok (.class_ parent) middle := lookUp_of_unlocated unlocated rfl
    have superclass : superclass (some ⟨0, a⟩) middle = .ok (some parent) middle := bind_of_ok named
    have two : execute 9 (.class_ b (some ⟨0, a⟩) [calling]) middle = .ok .normal declared :=
      bind_of_ok (defineClass_of_ok superclass rfl rfl rfl)
    have callee : evaluate 7 (.variable ⟨2, b⟩) declared = .ok (.class_ child) declared :=
      lookUp_of_unlocated unlocated' rfl
    have before : interpret 9 [.class_ a none [plain], .class_ b (some ⟨0, a⟩) [calling]] first =
        .ok () declared := by
      rw [interpret, bind_of_ok one, interpret, bind_of_ok two]
      rfl
    have start : (Run.mk 9 program first).Reaches ⟨9, .execute (.expression making), declared⟩ :=
      .start (@Run.Starts.statement _ [_, _] _ _ _ rfl before)
    have called := (start.enter .expression).enter (.called callee rfl)
    have invoked := called.enter (.invoked rfl)
    have body := (invoked.enter (.initializer rfl rfl rfl)).enter .functionBody
    exact ⟨_, (body.enter .firstStatement).enter .expression⟩
  have same : run = ⟨9, program, .start (resolve program).1 (.ofCapacity none) fun _ => 0⟩ :=
    Run.ofSource_eq read _ _ _
  obtain ⟨m, reached⟩ := reaches (resolve program).1 rfl rfl
  rw [← same] at reached
  obtain ⟨d, levels, scopes, level, methods, f, i, inner, parent, outer, recorded, located, _, inside, _⟩ :=
    super_is_static clean reached
  exact ⟨clean, 1, _, _, m, reached, d, levels, scopes, level, methods, f, i, inner, parent, outer,
    recorded, located, inside⟩

end Eval
end LoxLang
