import LoxLang.Proofs.Evaluation.Super

/-! What `this` means. A method gets its instance when it is bound, by an access to a property or to the
superclass or for a new instance: it is then closed over a frame of its own that binds `this` and that no
code can write to. So the code of the method, and of the functions nested in it, finds that instance
whatever has become of the method in between, and a call of an initializer yields it. A class yields an
instance that is made in the call. -/
namespace LoxLang

/-- The instance is not in the store, and none of the frames, of the fields and of these values holds it. -/
structure Store.Lacks (s : Store) (values : List Value) (i : Instance) : Prop where
  unmade : s.instances.size ≤ i.id.index
  frames : ∀ frame name j, s.read? frame name = some (.instance_ j) → j.id ≠ i.id
  fields : ∀ k name j, s.field? k name = some (.instance_ j) → j.id ≠ i.id
  values : ∀ j, .instance_ j ∈ values → j.id ≠ i.id

/-- A method that is bound is closed over a frame that holds the instance, and is an initializer if it was
one before. -/
theorem Store.of_bindMethod {s after : Store} {method f : Function} {i : Instance}
    (bind : s.bindMethod method i = (f, after)) :
    after.read? f.closure Keyword.this_.spelling = some (.instance_ i) ∧
      f.isInitializer = method.isInitializer := by
  cases bind
  refine ⟨?_, rfl⟩
  have read := read?_newFrame s (some method.closure) [("this", .instance_ i)] ⟨s.frames.size⟩ "this"
  rw [if_pos rfl] at read
  exact read

/-- What a function yields whose body ends so. -/
def Completion.value : Completion → Value
  | .normal => .nil
  | .returned v => v

namespace Eval
open Scope

namespace Run

variable {run : Run} {s : Store} {f : Function} {i : Instance}

/-- The run bound a method to the instance, and the function is what came of it. -/
def Binds (run : Run) (f : Function) (i : Instance) : Prop :=
  ∃ moment s method, run.Reaches moment ∧ BindsMethod moment s method i ∧ f = (s.bindMethod method i).1

/-- The function is closed over the frame that was made for `this` when the run bound it to the
instance, and the frame still holds the instance. -/
structure Receives (run : Run) (s : Store) (f : Function) (i : Instance) : Prop where
  binds : run.Binds f i
  holds : s.read? f.closure Keyword.this_.spelling = some (.instance_ i)

/-- A function that was made just inside a scope for `this` was bound to the instance there. -/
theorem Made.binds {methods : List Declaration} {frame : FrameId} {scopes : List Activation}
    (made : run.Made f (.receiver methods i frame :: scopes)) : run.Binds f i ∧ f.closure = frame := by
  cases made with
  | declared here =>
    rcases here.innermost _ rfl with ⟨_, _, impossible⟩ | ⟨_, _, impossible⟩ <;> cases impossible
  | bound here binds _ => exact ⟨⟨_, _, _, here.reaches, binds, rfl⟩, rfl⟩

/-- A declared function is no initializer, so an initializer that can be called has been bound. -/
theorem FunctionSound.receives (sound : run.FunctionSound s f) (initializer : f.isInitializer) :
    ∃ i, run.Receives s f i := by
  obtain ⟨levels, scopes, made, mirrored, _⟩ := sound
  cases made with
  | declared => cases initializer
  | @bound _ _ _ _ i _ _ here binds _ =>
    exact ⟨i, ⟨_, _, _, here.reaches, binds, rfl⟩, mirrored.holds _ List.mem_cons_self⟩

/-- The methods of a class that are called `init` are its initializers. -/
theorem isInitializer_of_closeMethods {methods : List Declaration} {m last : Machine}
    {closed : List (String × Function)} (ended : closeMethods methods m = .ok closed last) :
    ∀ key method, (key, method) ∈ closed → method.isInitializer = decide (method.name = initializerName) := by
  induction methods generalizing m closed last with
  | nil =>
    cases ended
    exact nofun
  | cons d rest ih =>
    obtain ⟨closure, _, _, ended⟩ := bind_eq_ok ended
    obtain ⟨made, next, first, others⟩ := bind_eq_ok ended
    obtain ⟨later, _, closing, given⟩ := bind_eq_ok others
    cases first
    cases given
    intro key method member
    rcases List.mem_cons.mp member with same | member
    · cases same
      rfl
    · exact ih closing key method member

theorem MethodSound.isInitializer {method : Function} (sound : run.MethodSound s method) :
    method.isInitializer = decide (method.name = initializerName) := by
  obtain ⟨_, _, _, made, _, _⟩ := sound
  cases made with
  | closed _ closes member =>
    obtain ⟨_, _, _, _, _, _, _, closing⟩ := closes
    exact isInitializer_of_closeMethods closing _ _ member

/-- The method that is called for a new instance of a class is an initializer. -/
theorem ClassSound.isInitializer {c : Class} {method : Function} (sound : run.ClassSound s c)
    (found : c.findMethod? initializerName = some method) : method.isInitializer := by
  obtain ⟨named, method⟩ := sound _ _ found
  rw [method.isInitializer, named]
  exact decide_eq_true rfl

/-- A method that is bound at a sound moment is sound. -/
theorem Sound.bindsMethod {moment : Moment} {method : Function} (sound : run.Sound moment)
    (binds : BindsMethod moment s method i) : ∃ s', run.MethodSound s' method := by
  cases binds with
  | property first absent found =>
    obtain ⟨_, _, inner⟩ := sound.enter .getObject
    obtain ⟨_, value⟩ := inner.evaluated (allDeliver run _) first
    exact ⟨_, (value.2 _ _ found).2⟩
  | super located above receiver found =>
    obtain ⟨_, _, inner⟩ := sound
    obtain ⟨holder, held⟩ := Store.read_of_getAt? above
    have parent : run.ClassSound _ _ := inner.store.bound _ _ _ held
    exact ⟨_, (parent _ _ found).2⟩
  | initializer fresh found =>
    obtain ⟨_, _, inner⟩ := sound
    exact ⟨_, (inner.task.1 _ _ found).2⟩

/-- Of the functions that were bound, the initializers are those called `init`. -/
theorem Binds.isInitializer (fresh : run.Fresh) (binds : run.Binds f i) :
    f.isInitializer ↔ f.name = initializerName := by
  obtain ⟨moment, s, method, reached, bound, rfl⟩ := binds
  obtain ⟨_, sound⟩ := (fresh.sound reached).bindsMethod bound
  exact (Bool.eq_iff_iff.mp sound.isInitializer).trans decide_eq_true_iff

/-- This `this` stands in a method: it occurs in the program inside `levels`, for each of which a scope is
open. The method runs `d` steps out, no method is nearer, and it was bound to the instance. -/
structure StandsIn (run : Run) (moment : Moment) (keyword : Reference) (levels : List Level)
    (scopes : List Activation) (d : Nat) (methods : List Declaration) (f : Function) (i : Instance) :
    Prop where
  occurs : ⟨.this, keyword, levels⟩ ∈ occurrences run.program
  opened : run.Opened moment scopes
  sites : scopes.map Activation.site = levels.map Level.site
  method : f.declaration ∈ methods
  running : ∃ body, scopes[d]? = some (.routine f body)
  receiver : scopes[d + 1]? = some (.receiver methods i f.closure)
  nearest : scopes.findIdx? (·.site.isReceiver) = some (d + 1)
  receives : run.Receives moment.machine.store f i

/-- Inside levels of which the innermost for `this` is just outside that of a method, the method runs in a
scope of its own, inside that of the instance it was bound to. -/
theorem SoundIn.standsIn {moment : Moment} {levels : List Level} {scopes : List Activation}
    (sound : run.SoundIn moment levels scopes) {keyword : Reference}
    (occurs : ⟨.this, keyword, levels⟩ ∈ occurrences run.program) {d : Nat} {methods : List Declaration}
    {declaration : Declaration} (member : declaration ∈ methods)
    (routine : levels[d]?.map Level.site = some (.routine declaration))
    (receiver : levels[d + 1]?.map Level.site = some (.receiver methods))
    (nearest : levels.findIdx? (·.site.isReceiver) = some (d + 1)) :
    ∃ f i, run.StandsIn moment keyword levels scopes d methods f i := by
  obtain ⟨_, running, site⟩ := sound.mirrored.active routine
  obtain ⟨f, body, rfl, rfl⟩ := Activation.eq_routine site
  obtain ⟨_, received, site⟩ := sound.mirrored.active receiver
  obtain ⟨i, inner, rfl⟩ := Activation.eq_receiver site
  have made := sound.opened.made running
  rw [drop_of_getElem? received] at made
  obtain ⟨binds, rfl⟩ := made.binds
  have innermost : scopes.findIdx? (·.site.isReceiver) = some (d + 1) := by
    have found := congrArg (List.findIdx? Site.isReceiver) sound.mirrored.sites
    rw [List.findIdx?_map, List.findIdx?_map] at found
    exact found.trans nearest
  have holds := sound.mirrored.holds _ (List.mem_of_getElem? received)
  exact ⟨f, i, occurs, sound.opened, sound.mirrored.sites, member, ⟨body, running⟩, received, innermost,
    binds, holds⟩

/-- A new instance is lacking wherever values are sound. -/
theorem StoreSound.lacks (sound : run.StoreSound s) {values : List Value}
    (valued : ∀ v ∈ values, run.ValueSound s v) (c : Class) : s.Lacks values (s.newInstance c).1 := by
  have apart {j : Instance} (value : run.ValueSound s (.instance_ j)) : j.id ≠ (s.newInstance c).1.id := by
    intro same
    have there : j.id.index < s.instances.size := value.1
    rw [same] at there
    exact Nat.lt_irrefl _ there
  exact ⟨Nat.le_refl _, fun frame name j found => apart (sound.bound frame name _ found),
    fun k name j found => apart (sound.fields k name _ found), fun j member => apart (valued _ member)⟩

end Run

/-- In a program that is read and resolved without a fault, `this` stands in a method. -/
theorem this_in_method {source : String} {keyword : Reference} {levels : List Level}
    {R Q : Reference → Prop} (clean : (resolve (Program.read source).statements).2 = [])
    (plain : Grammar.stmtsNames Token.Unreserved R Q (Program.read source).statements)
    (member : ⟨.this, keyword, levels⟩ ∈ occurrences (Program.read source).statements) :
    keyword.name.lexeme = Keyword.this_.spelling ∧
    ∃ d methods, (∃ declaration ∈ methods, levels[d]?.map Level.site = some (.routine declaration)) ∧
      levels[d + 1]?.map Level.site = some (.receiver methods) ∧
      levels.findIdx? (·.site.isReceiver) = some (d + 1) ∧
      levels.findIdx? (·.names.contains Keyword.this_.spelling) = some (d + 1) := by
  obtain ⟨high, built⟩ := Grammar.readProgram_built (scan source).1
  have fits := (numbered_of_built built []).fit _ member
  refine ⟨(scan_fitting source _ fits.1).word fits.2, ?_⟩
  obtain ⟨place, valid, around, e, operand, part, inside, own⟩ := stands_valid clean plain member nofun
  cases own.eq_this rfl
  obtain ⟨method, enclosing, isMethod⟩ := valid.received e operand _ inside
  obtain ⟨_, innermost⟩ := Option.isSome_iff_exists.mp
    (List.find?_isSome.mpr ⟨method, enclosing, isMethod⟩)
  obtain ⟨d, methods, routine, receiver, nearest, this, _⟩ := around.innermost innermost
  exact ⟨d, methods, routine, receiver, nearest, this⟩

/-- A call that gives a result has passed its checks, and gives that of the invocation. -/
theorem call_eq_ok {n line : Nat} {callee v : Value} {arguments : List Value} {m last : Machine}
    (ended : call n callee line arguments m = .ok v last) :
    ∃ k f after, callee.callable? = some f ∧
      Enters ⟨n, .call callee line arguments, m⟩
        ⟨k, .invoke f arguments, { m with activeCalls := m.activeCalls + 1 }⟩ ∧
      invoke k f arguments { m with activeCalls := m.activeCalls + 1 } = .ok v after ∧
      last = { after with activeCalls := after.activeCalls - 1 } := by
  cases n with
  | zero => cases ended
  | succ k =>
    obtain ⟨f, _, checked, inner⟩ := bind_eq_ok ended
    obtain ⟨callable, _, _, rfl⟩ := checkCall_eq_ok_iff.mp checked
    obtain ⟨after, invoked, same⟩ := inCall_eq_ok inner
    exact ⟨k, f, after, callable, .invoked checked, invoked, same⟩

/-- A class that is called yields the instance that it makes first. -/
theorem invoke_class_eq_ok {k : Nat} {c : Class} {arguments : List Value} {v : Value} {m last : Machine}
    (ended : invoke k (.class_ c) arguments m = .ok v last) :
    v = .instance_ (m.store.newInstance c).1 := by
  cases k with
  | zero => cases ended
  | succ k =>
    rw [invoke.eq_def] at ended
    obtain ⟨i, made, fresh, ended⟩ := bind_eq_ok ended
    cases fresh
    cases found : c.findMethod? initializerName with
    | none =>
      simp only [found] at ended
      cases ended
      rfl
    | some method =>
      simp only [found] at ended
      obtain ⟨_, _, _, ended⟩ := bind_eq_ok ended
      obtain ⟨_, _, _, ended⟩ := bind_eq_ok ended
      cases ended
      rfl

section
variable {n : Nat} {f : Function} {arguments : List Value} {m last : Machine}

theorem newFrame_bodyEntered (f : Function) (arguments : List Value) (m : Machine) :
    newFrame f.closure (.ofList ((f.declaration.parameters.map Token.lexeme).zip arguments)) m =
      .ok ⟨m.store.frames.size⟩ { bodyEntered f arguments m with current := m.current } := rfl

/-- A call whose body ends yields the instance, if the function is an initializer, and else what the body
returned. -/
theorem callFunction_of_ok {c : Completion}
    (ended : executeAll n f.declaration.body (bodyEntered f arguments m) = .ok c last) :
    callFunction (n + 1) f arguments m =
      (if f.isInitializer then
        ofOption (last.store.getAt? 0 f.closure "this") (.undefinedVariable "this") f.declaration.name.line
      else pure c.value) { last with current := m.current } := by
  rw [callFunction.eq_def]
  dsimp only
  rw [bind_of_ok (newFrame_bodyEntered f arguments m), bind_of_ok (inFrame_of_ok ended)]
  cases c <;> cases f.isInitializer <;> rfl

theorem callFunction_of_error {e : Interruption}
    (ended : executeAll n f.declaration.body (bodyEntered f arguments m) = .error e last) :
    callFunction (n + 1) f arguments m = .error e { last with current := m.current } := by
  rw [callFunction.eq_def]
  dsimp only
  rw [bind_of_ok (newFrame_bodyEntered f arguments m), bind_of_error (inFrame_of_error ended)]

end

namespace Run.Fresh

variable {run : Run} (fresh : run.Fresh) {n line : Nat} {f : Function} {arguments : List Value}
  {m last : Machine} {v : Value}
include fresh

/-- Whatever its body does, a call of an initializer yields the instance that the initializer was bound
to, unless the body fails. -/
theorem callFunction_initializer (reached : run.Reaches ⟨n + 1, .callFunction f arguments, m⟩)
    (initializer : f.isInitializer) :
    ∃ i, run.Receives m.store f i ∧ callFunction (n + 1) f arguments m =
      match executeAll n f.declaration.body (bodyEntered f arguments m) with
      | .ok _ last => .ok (.instance_ i) { last with current := m.current }
      | .error e last => .error e { last with current := m.current } := by
  obtain ⟨_, _, sound⟩ := fresh.sound reached
  obtain ⟨i, receives⟩ := sound.task.1.receives initializer
  refine ⟨i, receives, ?_⟩
  cases ended : executeAll n f.declaration.body (bodyEntered f arguments m) with
  | error e last => exact callFunction_of_error ended
  | ok c last =>
    have given := Ends.ok_of (allDeliver run n sound.functionBody) ended
    have kept : m.store.Kept last.store := .trans (.newFrame m.store (some f.closure) _) given.1
    have still : last.store.getAt? 0 f.closure "this" = some (.instance_ i) :=
      Store.getAt?_of_read rfl (kept.words _ .this_ _ receives.holds)
    rw [callFunction_of_ok ended, if_pos initializer, still]
    rfl

/-- Whoever calls an initializer gets its instance. -/
theorem call_initializer (reached : run.Reaches ⟨n, .call (.function f) line arguments, m⟩)
    (initializer : f.isInitializer) (ended : call n (.function f) line arguments m = .ok v last) :
    ∃ i, run.Receives m.store f i ∧ v = .instance_ i := by
  obtain ⟨k, _, after, callable, enters, invoked, _⟩ := call_eq_ok ended
  cases callable
  have entered := reached.enter enters
  match k with
  | 0 => cases invoked
  | 1 => cases invoked
  | k + 2 =>
    obtain ⟨i, receives, same⟩ := fresh.callFunction_initializer (entered.enter .function) initializer
    have given : callFunction (k + 1) f arguments _ = .ok v after := invoked
    rw [same] at given
    refine ⟨i, receives, ?_⟩
    split at given
    · cases given
      rfl
    · cases given

/-- Whoever calls a class gets an instance of it that was nowhere before. -/
theorem call_class {c : Class} (reached : run.Reaches ⟨n, .call (.class_ c) line arguments, m⟩)
    (ended : call n (.class_ c) line arguments m = .ok v last) :
    ∃ i, v = .instance_ i ∧ i.cls = c ∧ m.store.Lacks arguments i ∧
      i.id.index < last.store.instances.size ∧
      ∀ method, c.findMethod? initializerName = some method →
        ∃ f, f.declaration = method.declaration ∧ f.isInitializer ∧ run.Binds f i := by
  obtain ⟨_, _, sound⟩ := fresh.sound reached
  have classSound : run.ClassSound m.store c := sound.task.1
  obtain ⟨k, _, after, callable, enters, invoked, rfl⟩ := call_eq_ok ended
  cases callable
  have entered := reached.enter enters
  obtain rfl := invoke_class_eq_ok invoked
  refine ⟨_, rfl, rfl, sound.store.lacks sound.task.2 c, ?_, ?_⟩
  · have given := Ends.ok_of (allDeliver run k (fresh.sound entered)) invoked
    exact given.2.2.1
  · intro method found
    cases k with
    | zero => cases invoked
    | succ k =>
      let made := m.store.newInstance c
      let invoking : Machine := { m with activeCalls := m.activeCalls + 1 }
      have binds : BindsMethod ⟨k + 1, .invoke (.class_ c) arguments, invoking⟩ made.2 method made.1 :=
        .initializer rfl found
      have initializer : method.isInitializer := classSound.isInitializer found
      exact ⟨(made.2.bindMethod method made.1).1, rfl, initializer, _, _, _, entered, binds, rfl⟩

end Run.Fresh

/-- Where `this` is evaluated, the code stands in a method, and gets the instance that the innermost one
was bound to. -/
theorem evaluate_this {fuel n : Nat} {clock : Nat → Float} {source : String} {out : Sink}
    {keyword : Reference} {m : Machine} (clean : (resolve (Program.read source).statements).2 = [])
    (reached : (Run.ofSource fuel clock source out).Reaches ⟨n + 1, .evaluate (.this keyword), m⟩) :
    ∃ levels scopes d methods f i,
      (Run.ofSource fuel clock source out).StandsIn ⟨n + 1, .evaluate (.this keyword), m⟩ keyword levels
        scopes d methods f i ∧
      evaluate (n + 1) (.this keyword) m = .ok (.instance_ i) m := by
  have fresh := Run.fresh_ofSource fuel clock source out
  obtain ⟨levels, scopes, sound⟩ := fresh.sound reached
  have member : ⟨.this, keyword, levels⟩ ∈ occurrences (Program.read source).statements :=
    sound.task (List.mem_singleton_self _)
  obtain ⟨spelled, d, methods, ⟨declaration, listed, routine⟩, receiver, nearest, this⟩ :=
    this_in_method clean fresh.plain member
  obtain ⟨f, i, inside⟩ := sound.standsIn member listed routine receiver nearest
  have resolved : resolve (Program.read source).statements =
      ((resolve (Program.read source).statements).1, []) := Prod.ext rfl clean
  have recorded : m.depths[keyword.id]? = some (d + 1) := by
    rw [reached.depths, ← this, ← spelled]
    exact (resolve_records resolved _ member).1
  -- The frame so many steps out is that of the scope for `this`, which holds the instance.
  obtain ⟨level, chosen, _⟩ := Option.map_eq_some_iff.mp receiver
  obtain ⟨a, active, _, ancestor, _⟩ := sound.mirrored.located chosen
  obtain rfl := Option.some.inj (inside.receiver.symm.trans active)
  refine ⟨levels, scopes, d, methods, f, i, inside, lookUp_of_read recorded ancestor ?_⟩
  rw [spelled]
  exact inside.receives.holds

/-- In a program that is read and resolved without a fault, evaluating `this` yields the instance that the
innermost method around it was bound to. Of the functions that were bound, the initializers are those
called `init`; a call of one ends as its body does, with its instance for the result, and whoever calls it
gets that instance. A class that is called yields an instance of its own that nothing had before the call,
and that its initializer, if it has one, was bound to. -/
theorem this_is_fixed_by_binding {fuel : Nat} {clock : Nat → Float} {source : String} {out : Sink}
    (clean : (resolve (Program.read source).statements).2 = []) :
    let run := Run.ofSource fuel clock source out
    (∀ {n keyword m}, run.Reaches ⟨n + 1, .evaluate (.this keyword), m⟩ →
      ∃ levels scopes d methods f i,
        run.StandsIn ⟨n + 1, .evaluate (.this keyword), m⟩ keyword levels scopes d methods f i ∧
        evaluate (n + 1) (.this keyword) m = .ok (.instance_ i) m) ∧
    (∀ {f i}, run.Binds f i → (f.isInitializer ↔ f.name = initializerName)) ∧
    (∀ {n f arguments m}, run.Reaches ⟨n + 1, .callFunction f arguments, m⟩ → f.isInitializer →
      ∃ i, run.Receives m.store f i ∧
        callFunction (n + 1) f arguments m =
          match executeAll n f.declaration.body (bodyEntered f arguments m) with
          | .ok _ last => .ok (.instance_ i) { last with current := m.current }
          | .error e last => .error e { last with current := m.current }) ∧
    (∀ {n f line arguments m v last}, run.Reaches ⟨n, .call (.function f) line arguments, m⟩ →
      f.isInitializer → call n (.function f) line arguments m = .ok v last →
      ∃ i, run.Receives m.store f i ∧ v = .instance_ i) ∧
    ∀ {n c line arguments m v last}, run.Reaches ⟨n, .call (.class_ c) line arguments, m⟩ →
      call n (.class_ c) line arguments m = .ok v last →
      ∃ i, v = .instance_ i ∧ i.cls = c ∧ m.store.Lacks arguments i ∧
        i.id.index < last.store.instances.size ∧
        ∀ method, c.findMethod? initializerName = some method →
          ∃ f, f.declaration = method.declaration ∧ f.isInitializer ∧ run.Binds f i := by
  intro run
  have fresh : run.Fresh := Run.fresh_ofSource fuel clock source out
  exact ⟨evaluate_this clean, fun binds => binds.isInitializer fresh, fresh.callFunction_initializer,
    fresh.call_initializer, fresh.call_class⟩

/-- An initializer that returns early is run for a new instance and then called once more on it, and a
method of the instance evaluates `this`. -/
theorem initializer_called_again :
    let source := "class A\x7binit()\x7breturn;\x7dm()\x7bthis;\x7d\x7dA().init().m();"
    let run := Run.ofSource 14 (fun _ => 0) source (.ofCapacity none)
    (resolve (Program.read source).statements).2 = [] ∧
      (∃ n keyword m, run.Reaches ⟨n + 1, .evaluate (.this keyword), m⟩ ∧
        ∃ i, evaluate (n + 1) (.this keyword) m = .ok (.instance_ i) m) ∧
      (∃ n f line m v last, run.Reaches ⟨n, .call (.function f) line [], m⟩ ∧ f.isInitializer ∧
        call n (.function f) line [] m = .ok v last ∧ ∃ i, run.Receives m.store f i ∧ v = .instance_ i) ∧
      ∃ n c line m v last, run.Reaches ⟨n, .call (.class_ c) line [], m⟩ ∧
        call n (.class_ c) line [] m = .ok v last ∧ ∃ i, v = .instance_ i ∧ m.store.Lacks [] i := by
  intro source run
  let class_ : Token := ⟨.keyword .class_, "class", 1⟩
  let a : Token := ⟨.identifier, "A", 1⟩
  let init : Token := ⟨.identifier, "init", 1⟩
  let method : Token := ⟨.identifier, "m", 1⟩
  let this : Token := ⟨.keyword .this_, "this", 1⟩
  let return_ : Token := ⟨.keyword .return_, "return", 1⟩
  let opening : Token := ⟨.symbol .leftBrace, "\x7b", 1⟩
  let closing : Token := ⟨.symbol .rightBrace, "\x7d", 1⟩
  let left : Token := ⟨.symbol .leftParen, "(", 1⟩
  let right : Token := ⟨.symbol .rightParen, ")", 1⟩
  let dot : Token := ⟨.symbol .dot, ".", 1⟩
  let semicolon : Token := ⟨.symbol .semicolon, ";", 1⟩
  let tokens := [class_, a, opening, init, left, right, opening, return_, semicolon, closing,
    method, left, right, opening, this, semicolon, closing, closing, a, left, right, dot, init, left, right,
    dot, method, left, right, semicolon, ⟨.endOfFile, "", 1⟩]
  let returning : Declaration := ⟨init, [], [.return_ return_ none]⟩
  let asking : Declaration := ⟨method, [], [.expression (.this ⟨0, this⟩)]⟩
  let making : Expr := .call (.variable ⟨1, a⟩) right []
  let again : Expr := .call (.get making init) right []
  let asked : Expr := .call (.get again method) right []
  let program : List Stmt := [.class_ a none [returning, asking], .expression asked]
  have scanned : (scan source).1 = tokens := by decide +kernel
  have parsed : (Grammar.readProgram tokens).1 = program := by cbv
  have read : (Program.read source).statements = program := Program.statements_of_scan scanned parsed
  have clean : (resolve (Program.read source).statements).2 = [] := by
    rw [read]
    rfl
  -- The machine is followed for any depths that leave the name of the class unlocated.
  have runs (depths : Depths) (unlocated : depths[(1 : Nat)]? = none) :
      let run : Run := ⟨14, program, .start depths (.ofCapacity none) fun _ => 0⟩
      (∃ n m, run.Reaches ⟨n + 1, .evaluate (.this ⟨0, this⟩), m⟩) ∧
      (∃ n f m v last, run.Reaches ⟨n, .call (.function f) 1 [], m⟩ ∧ f.isInitializer ∧
        call n (.function f) 1 [] m = .ok v last) ∧
      ∃ n c m v last, run.Reaches ⟨n, .call (.class_ c) 1 [], m⟩ ∧
        call n (.class_ c) 1 [] m = .ok v last := by
    intro run
    let c : Class := ⟨⟨0⟩, "A", none, [("init", ⟨⟨0⟩, returning, ⟨0⟩, true⟩), ("m", ⟨⟨1⟩, asking, ⟨0⟩, false⟩)]⟩
    let globals : Frame := ⟨[("clock", .native .clock), ("A", .class_ c)], none⟩
    let holding : Frame := ⟨[("this", .instance_ ⟨⟨0⟩, c⟩)], some ⟨0⟩⟩
    let declared : Machine := { run.first with store := ⟨#[globals], #[], 2, 1⟩ }
    let called (closure : Nat) : Frame := ⟨[], some ⟨closure⟩⟩
    let grown (frames : Array Frame) (functions : Nat) : Machine :=
      { run.first with store := ⟨frames, #[[]], functions, 1⟩ }
    have declares : defineClass a none [returning, asking] run.first = .ok () declared :=
      defineClass_of_ok rfl rfl rfl rfl
    have before : interpret 14 [.class_ a none [returning, asking]] run.first = .ok () declared :=
      bind_of_ok (bind_of_ok declares)
    have started : run.Reaches ⟨14, .execute (.expression asked), declared⟩ :=
      .start (@Run.Starts.statement _ [_] _ _ _ rfl before)
    have callee : evaluate 8 (.variable ⟨1, a⟩) declared = .ok (.class_ c) declared :=
      lookUp_of_unlocated unlocated rfl
    have one : evaluate 9 making declared = .ok (.instance_ ⟨⟨0⟩, c⟩)
      (grown #[globals, holding, called 1] 3) := (bind_of_ok callee).trans rfl
    have two : evaluate 10 (.get making init) declared = .ok (.function ⟨⟨3⟩, returning, ⟨3⟩, true⟩)
      (grown #[globals, holding, called 1, holding] 4) := (bind_of_ok one).trans rfl
    have three : evaluate 11 again declared = .ok (.instance_ ⟨⟨0⟩, c⟩)
      (grown #[globals, holding, called 1, holding, called 3] 4) := (bind_of_ok two).trans rfl
    have four : evaluate 12 (.get again method) declared = .ok (.function ⟨⟨4⟩, asking, ⟨5⟩, false⟩)
      (grown #[globals, holding, called 1, holding, called 3, holding] 5) := (bind_of_ok three).trans rfl
    have inner := (started.enter .expression).enter .callee
    have innermost := (inner.enter .getObject).enter .callee
    have calling := (started.enter .expression).enter (.called four rfl)
    have invoked := calling.enter (.invoked rfl)
    have body := (invoked.enter .function).enter .functionBody
    exact ⟨⟨_, _, (body.enter .firstStatement).enter .expression⟩,
      ⟨_, _, _, _, _, (inner.enter .getObject).enter (.called two rfl), rfl, rfl⟩,
      ⟨_, _, _, _, _, (innermost.enter .getObject).enter (.called callee rfl), rfl⟩⟩
  have same : run = ⟨14, program, .start (resolve program).1 (.ofCapacity none) fun _ => 0⟩ :=
    Run.ofSource_eq read _ _ _
  obtain ⟨⟨n, m, inside⟩, ⟨n', f, m', v, last, again, initializer, given⟩, ⟨_, c, _, _, _, first, made⟩⟩ :=
    runs (resolve program).1 rfl
  rw [← same] at inside again first
  obtain ⟨evaluated, _, _, yields, makes⟩ :=
    @this_is_fixed_by_binding 14 (fun _ => 0) source (.ofCapacity none) clean
  obtain ⟨_, _, _, _, _, i, _, received⟩ := evaluated inside
  obtain ⟨i', lacking⟩ := makes first made
  exact ⟨clean, ⟨n, _, m, inside, i, received⟩,
    ⟨n', f, 1, m', v, last, again, initializer, given, yields again initializer given⟩,
    ⟨_, c, 1, _, _, _, first, made, i', lacking.1, lacking.2.2.1⟩⟩

end Eval
end LoxLang
