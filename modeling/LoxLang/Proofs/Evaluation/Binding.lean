import LoxLang.Proofs.Evaluation.Restoration
import LoxLang.Proofs.Grammar.Names
import LoxLang.Proofs.Scope.Occurrence
import LoxLang.Proofs.Store.Growth

/-! Where names are bound. A part of a run binds new names only in frames that it makes itself; a
statement also binds the names that it declares in the scope around it, in the frame that is current
when it starts. Whatever functions are called and closures entered on the way, and however the part ends,
every other frame binds the names that it did. -/
namespace LoxLang

/-- A frame that was there binds the names that it did, and no others but for these, if it was the
current one. -/
structure Machine.Contained (names : List Token) (m after : Machine) : Prop where
  current : after.current = m.current
  grown : m.store.Grown after.store
  bound : ∀ frame name, frame.index < m.store.frames.size → after.store.binds frame name →
    m.store.binds frame name ∨ (frame = m.current ∧ ∃ t ∈ names, t.lexeme = name)

namespace Machine.Contained

variable {names more : List Token} {m before after : Machine}

theorem trans (first : Contained names m before) (second : Contained names before after) :
    Contained names m after where
  current := second.current.trans first.current
  grown := first.grown.trans second.grown
  bound frame name there binds := by
    rcases second.bound frame name (Nat.lt_of_lt_of_le there first.grown.size) binds with earlier | added
    · exact first.bound frame name there earlier
    · exact .inr ⟨added.1.trans first.current, added.2⟩

theorem widen (contained : Contained names m after) (included : names ⊆ more) :
    Contained more m after where
  current := contained.current
  grown := contained.grown
  bound frame name there binds := by
    rcases contained.bound frame name there binds with earlier | ⟨same, t, member, spelled⟩
    · exact .inl earlier
    · exact .inr ⟨same, t, included member, spelled⟩

/-- A step that leaves the frames alone. -/
theorem of_frames (current : after.current = m.current)
    (same : after.store.frames = m.store.frames) : Contained names m after where
  current := current
  grown := .of_frames same
  bound frame name _ binds := by
    simp only [Store.binds, Store.read?, same] at binds
    exact .inl binds

theorem newFrame (m : Machine) (enclosing : FrameId) (bindings : Table Value) :
    Contained names m { m with store := (m.store.newFrame (some enclosing) bindings).2 } where
  current := rfl
  grown := .newFrame m.store (some enclosing) bindings
  bound frame name there binds := by
    rw [Store.binds, Store.read?_newFrame, if_neg (Nat.ne_of_lt there)] at binds
    exact .inl binds

/-- A definition in the current frame adds its own name. -/
theorem declare (m : Machine) (name : Token) (v : Value) :
    Contained [name] m { m with store := m.store.define m.current name.lexeme v } where
  current := rfl
  grown := .define m.store m.current name.lexeme v
  bound frame key _ binds := by
    rcases Store.binds_of_define binds with earlier | ⟨same, spelled⟩
    · exact .inl earlier
    · exact .inr ⟨same, name, List.mem_singleton_self name, spelled.symm⟩

theorem rebind (m : Machine) (holder : FrameId) (key : String) (v : Value)
    (held : m.store.binds holder key) :
    Contained names m { m with store := m.store.define holder key v } where
  current := rfl
  grown := .define m.store holder key v
  bound frame name _ binds := by
    rcases Store.binds_of_define binds with earlier | ⟨rfl, rfl⟩
    · exact .inl earlier
    · exact .inl held

/-- What is declared in a frame of its own is bound in no frame that was there. -/
theorem framed {enclosing : FrameId} {bindings : Table Value}
    (inner : Contained names { m with
      store := (m.store.newFrame (some enclosing) bindings).2, current := ⟨m.store.frames.size⟩ } after) :
    Contained [] m { after with current := m.current } where
  current := rfl
  grown := .trans (.newFrame m.store (some enclosing) bindings) inner.grown
  bound frame name there binds := by
    have made : Contained [] m _ := newFrame m enclosing bindings
    rcases inner.bound frame name (Nat.lt_of_lt_of_le there made.grown.size) binds with earlier | ⟨rfl, _⟩
    · exact made.bound frame name there earlier
    · exact absurd there (Nat.lt_irrefl _)

end Machine.Contained

namespace Scope
open Grammar

variable {P : Token → Prop} {R Q : Reference → Prop} {place : Place}

/-- In a statement that the grammar builds, nothing is declared around it but by itself. -/
theorem declarations_of_named : ∀ s : Stmt, stmtNames P R Q s → s.declarations = s.declared?.toList
  | .expression _, _ | .print _, _ | .var _ _, _ | .block _, _ | .return_ _ _, _ | .class_ _ _ _, _
  | .function ⟨_, _, _⟩, _ => rfl
  | .if_ _ thenBranch none, named => by
    rw [Stmt.declarations, declarations_of_named thenBranch named.2.1, named.2.2]
    rfl
  | .if_ _ thenBranch (some elseBranch), named => by
    rw [Stmt.declarations, declarations_of_named thenBranch named.2.1.1, named.2.1.2,
      declarations_of_named elseBranch named.2.2.1, named.2.2.2]
    rfl
  | .while_ _ body, named => by
    rw [Stmt.declarations, declarations_of_named body named.2.1, named.2.2]
    rfl

mutual

/-- What holds of the names in a statement holds of those in all statements in it. -/
theorem named_of_stmtPlaces : ∀ path s, stmtNames P R Q s → place ∈ stmtPlaces path s →
    stmtNames P R Q place.stmt
  | _, .expression _, named, member | _, .print _, named, member | _, .var _ _, named, member
  | _, .return_ _ _, named, member => by
    rw [List.mem_singleton.mp member]
    exact named
  | path, .block body, named, member => by
    rcases List.mem_cons.mp member with rfl | member
    · exact named
    · exact named_of_stmtsPlaces (.block :: path) body named member
  | path, .if_ condition thenBranch none, named, member => by
    rcases List.mem_cons.mp member with rfl | member
    · exact named
    · exact named_of_stmtPlaces path thenBranch named.2.1 member
  | path, .if_ condition thenBranch (some elseBranch), named, member => by
    rcases List.mem_cons.mp member with rfl | member
    · exact named
    rcases List.mem_append.mp member with member | member
    · exact named_of_stmtPlaces path thenBranch named.2.1.1 member
    · exact named_of_stmtPlaces path elseBranch named.2.2.1 member
  | path, .while_ condition body, named, member => by
    rcases List.mem_cons.mp member with rfl | member
    · exact named
    · exact named_of_stmtPlaces path body named.2.1 member
  | path, .function ⟨name, parameters, body⟩, named, member => by
    rcases List.mem_cons.mp member with rfl | member
    · exact named
    · exact named_of_stmtsPlaces (.function :: path) body named.2.2 member
  | path, .class_ name clause methods, named, member => by
    rcases List.mem_cons.mp member with rfl | member
    · exact named
    · exact named_of_methodsPlaces path clause methods named.2.2 member

theorem named_of_stmtsPlaces : ∀ path body, stmtsNames P R Q body → place ∈ stmtsPlaces path body →
    stmtNames P R Q place.stmt
  | _, [], _, member => by simp [stmtsPlaces] at member
  | path, s :: rest, named, member => by
    rcases List.mem_append.mp member with member | member
    · exact named_of_stmtPlaces path s named.1 member
    · exact named_of_stmtsPlaces path rest named.2 member

theorem named_of_methodsPlaces : ∀ path clause methods, declarationsNames P R Q methods →
    place ∈ methodsPlaces path clause methods → stmtNames P R Q place.stmt
  | _, _, [], _, member => by simp [methodsPlaces] at member
  | path, clause, ⟨name, parameters, body⟩ :: rest, named, member => by
    rcases List.mem_append.mp member with member | member
    · exact named_of_stmtsPlaces (.method name clause :: path) body named.1.2.2 member
    · exact named_of_methodsPlaces path clause rest named.2 member

end

end Scope

namespace Eval
open Machine Scope

/-- Expressions and calls bind no name in a frame that was there, and a statement binds only what it
declares. -/
theorem contained_confined : Confined (Contained []) Contained where
  refl _ := .of_frames rfl rfl
  trans := .trans
  newFrame := .newFrame
  rebind := .rebind
  newFunction _ _ _ _ := .of_frames rfl rfl
  newClass _ _ _ _ := .of_frames rfl rfl
  newInstance _ _ := .of_frames rfl rfl
  setField _ _ _ _ := .of_frames rfl rfl
  write _ _ := .of_frames rfl rfl
  readClock _ := .of_frames rfl rfl
  aside _ _ _ inner :=
    ⟨rfl, inner.grown, fun frame name there binds => (inner.bound frame name there binds).imp id nofun⟩
  inCall _ _ inner := ⟨inner.current, inner.grown, inner.bound⟩
  still held := held.widen (List.nil_subset _)
  chain := .trans
  widen included held := held.widen included
  declare := .declare
  inFrame _ _ _ _ _ := .framed

/-- Bindings stay in their scope. However a statement that the grammar builds ends, from whatever machine
it starts, every frame that was there binds the names that it did, and no others, except that a
declaration may add its own name in the frame that was current. -/
theorem bindings_stay_in_scope {tokens : List Token} {place : Place} {fuel : Nat} {m after : Machine}
    (member : place ∈ stmtsPlaces [] (Grammar.readProgram tokens).1)
    (leaves : Leaves (execute fuel place.stmt) m after) {frame : FrameId}
    (there : frame.index < m.store.frames.size) (name : String) :
    (m.store.binds frame name → after.store.binds frame name) ∧
      (after.store.binds frame name →
        m.store.binds frame name ∨ (frame = m.current ∧ Declares name place.stmt)) := by
  obtain ⟨high, built⟩ := Grammar.readProgram_built tokens
  have named := named_of_stmtsPlaces [] _ (Grammar.names_of_built built) member
  have contained := leaves.within ((contained_confined.allConfined fuel).execute place.stmt)
  rw [declarations_of_named place.stmt named] at contained
  refine ⟨contained.grown.binds frame name, ?_⟩
  intro bound
  rcases contained.bound frame name there bound with earlier | ⟨current, t, declared, spelled⟩
  · exact .inl earlier
  · exact .inr ⟨current, t, Option.mem_toList.mp declared, spelled⟩

/-- The variable of a block is bound in the frame of the block and in no frame around it. -/
theorem block_variable_stays_inside :
    let tokens : List Token := [⟨.symbol .leftBrace, "\x7b", 1⟩, ⟨.keyword .var_, "var", 1⟩,
      ⟨.identifier, "a", 1⟩, ⟨.symbol .semicolon, ";", 1⟩, ⟨.symbol .rightBrace, "\x7d", 1⟩,
      ⟨.endOfFile, "", 1⟩]
    let first : Machine := .start ∅ (.ofCapacity none) fun _ => 0
    ∃ place ∈ stmtsPlaces [] (Grammar.readProgram tokens).1, ∃ after,
      Leaves (execute 4 place.stmt) first after ∧ after.store.binds ⟨1⟩ "a" ∧
      ¬ after.store.binds ⟨0⟩ "a" := by
  intro tokens first
  let block : Stmt := .block [.var ⟨.identifier, "a", 1⟩ none]
  have parsed : (Grammar.readProgram tokens).1 = [block] := rfl
  have member : ⟨[], block⟩ ∈ stmtsPlaces [] (Grammar.readProgram tokens).1 := by
    rw [parsed]
    exact List.mem_cons_self
  let after : Machine := { first with store :=
    ⟨#[⟨[("clock", .native .clock)], none⟩, ⟨[("a", .nil)], some ⟨0⟩⟩], #[], 0, 0⟩ }
  have leaves : Leaves (execute 4 block) first after := rfl
  have there : (FrameId.mk 0).index < first.store.frames.size := Nat.zero_lt_one
  have stays := (bindings_stay_in_scope member leaves there "a").2
  refine ⟨⟨[], block⟩, member, after, leaves, rfl, ?_⟩
  intro bound
  rcases stays bound with earlier | ⟨_, t, declared, _⟩
  · cases earlier
  · cases declared

end Eval
end LoxLang
