import LoxLang.Store

/-! Where a name is found. Each of the four ways to read or to write a name goes along a chain of frames
by itself. Here the frame that holds the name is looked for once, and then read or written: whatever the
chain, a name is written in the frame in which it is read. -/
namespace LoxLang.Store

/-- The frame at a distance along the chain. -/
def ancestor? (s : Store) : Nat → FrameId → Option FrameId
  | 0, frame => some frame
  | distance + 1, frame => (s.enclosing? frame).bind (s.ancestor? distance)

/-- The first frame that binds a name among the first `fuel` of a chain. -/
def holderWithin? (s : Store) (name : String) : Nat → FrameId → Option FrameId
  | 0, _ => none
  | fuel + 1, frame =>
    if s.binds frame name then some frame
    else (s.enclosing? frame).bind (s.holderWithin? name fuel)

/-- The first frame of a chain that binds a name. -/
def holder? (s : Store) (frame : FrameId) (name : String) : Option FrameId :=
  s.holderWithin? name (frame.index + 1) frame

/-- The frame at a distance along a chain, if it binds a name. -/
def holderAt? (s : Store) (distance : Nat) (frame : FrameId) (name : String) : Option FrameId :=
  (s.ancestor? distance frame).filter fun holder => s.binds holder name

/-- Gives a name a new value in the frame that holds it, and says whether there is one. -/
def overwrite (s : Store) (holder : Option FrameId) (name : String) (v : Value) : Bool × Store :=
  match holder with
  | some frame => (true, s.define frame name v)
  | none => (false, s)

variable {s : Store} {name : String} {frame holder : FrameId}

theorem binds_of_holderWithin? {fuel : Nat} (held : s.holderWithin? name fuel frame = some holder) :
    s.binds holder name := by
  induction fuel generalizing frame with
  | zero => cases held
  | succ fuel ih =>
    rw [holderWithin?] at held
    split at held
    · next bound => exact Option.some.inj held ▸ bound
    · obtain ⟨_, _, later⟩ := Option.bind_eq_some_iff.mp held
      exact ih later

theorem binds_of_holder? (held : s.holder? frame name = some holder) : s.binds holder name :=
  binds_of_holderWithin? held

theorem binds_of_holderAt? {d : Nat} (held : s.holderAt? d frame name = some holder) :
    s.binds holder name :=
  (Option.filter_eq_some_iff.mp held).2

/-- Further along the chain the frame at a distance is one step nearer to the enclosing frame. -/
theorem holderAt?_succ (s : Store) (distance : Nat) (frame : FrameId) (name : String) :
    s.holderAt? (distance + 1) frame name =
      (s.enclosing? frame).bind fun outer => s.holderAt? distance outer name := by
  unfold holderAt?
  rw [ancestor?]
  cases s.enclosing? frame <;> rfl

theorem getWithin?_eq (s : Store) (name : String) (fuel : Nat) (frame : FrameId) :
    s.getWithin? name fuel frame =
      (s.holderWithin? name fuel frame).bind fun holder => s.read? holder name := by
  induction fuel generalizing frame with
  | zero => rfl
  | succ fuel ih =>
    rw [getWithin?, holderWithin?, binds]
    cases here : s.read? frame name with
    | some v => exact here.symm
    | none =>
      cases s.enclosing? frame with
      | none => rfl
      | some outer => exact ih outer

/-- Reading goes to the first frame that binds the name. -/
theorem get?_eq (s : Store) (frame : FrameId) (name : String) :
    s.get? frame name = (s.holder? frame name).bind fun holder => s.read? holder name :=
  s.getWithin?_eq name (frame.index + 1) frame

/-- Reading at a distance goes to the frame there, if it binds the name. -/
theorem getAt?_eq (s : Store) (distance : Nat) (frame : FrameId) (name : String) :
    s.getAt? distance frame name =
      (s.holderAt? distance frame name).bind fun holder => s.read? holder name := by
  induction distance generalizing frame with
  | zero =>
    rw [getAt?, holderAt?, ancestor?, Option.filter_some, binds]
    cases here : s.read? frame name with
    | none => rfl
    | some v => exact here.symm
  | succ distance ih =>
    rw [getAt?, holderAt?_succ]
    cases s.enclosing? frame with
    | none => rfl
    | some outer => exact ih outer

theorem assignWithin_eq (s : Store) (name : String) (v : Value) (fuel : Nat) (frame : FrameId) :
    s.assignWithin name v fuel frame = s.overwrite (s.holderWithin? name fuel frame) name v := by
  induction fuel generalizing frame with
  | zero => rfl
  | succ fuel ih =>
    rw [assignWithin, holderWithin?]
    split
    · rfl
    · cases s.enclosing? frame with
      | none => rfl
      | some outer => exact ih outer

/-- Writing goes to the frame that reading goes to. -/
theorem assign_eq (s : Store) (frame : FrameId) (name : String) (v : Value) :
    s.assign frame name v = s.overwrite (s.holder? frame name) name v :=
  s.assignWithin_eq name v (frame.index + 1) frame

/-- So does writing at a distance. -/
theorem assignAt_eq (s : Store) (distance : Nat) (frame : FrameId) (name : String) (v : Value) :
    s.assignAt distance frame name v = s.overwrite (s.holderAt? distance frame name) name v := by
  induction distance generalizing frame with
  | zero =>
    rw [assignAt, holderAt?, ancestor?, Option.filter_some]
    split <;> rfl
  | succ distance ih =>
    rw [assignAt, holderAt?_succ]
    cases s.enclosing? frame with
    | none => rfl
    | some outer => exact ih outer

end LoxLang.Store
